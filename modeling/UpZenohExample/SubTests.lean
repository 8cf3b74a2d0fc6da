import Mathlib.Data.Rat.Defs
import UpZenohExample.Utils

/-!
# The listener of `sub_tests.cpp`

`CustomListener.onReceive` follows the source statement by statement.
`onReceive_eq` then replaces the two nested calls of `split` by `decode`, so
that later modules never look into the handler again.
-/

namespace UpZenohExample

open ByteText

inductive UCode where
  | ok
  | invalidArgument
  | unavailable
  deriving DecidableEq, Repr

/-- The bytes of a payload; nothing behind them may be read. -/
structure UPayload where
  data : Text
  deriving DecidableEq, Repr

def UPayload.isEmpty (payload : UPayload) : Bool := payload.data.isEmpty

/-- `std::string((char *)p)` for the data pointer of a payload. -/
def UPayload.toText (payload : UPayload) : Except Fault Text :=
  match cString payload.data with
  | some data => .ok data
  | none => .error .overRead

/-- `int` and `long` wrap around. -/
structure CustomListener where
  countArraived : Int32 := 0
  messegesSize : Int64 := 0
  durationVec : List ℚ := []
  counter : Int64 := 0
  deriving DecidableEq, Repr

/-- The handler; `tm` is the clock reading at its start. -/
def CustomListener.onReceive (l : CustomListener) (tm : Timespec) (payload : UPayload) :
    Except Fault (UCode × CustomListener) :=
  if payload.isEmpty then .ok (.invalidArgument, l)
  else do
    let data ← payload.toText
    let splitData ← split data (text "|")
    if splitData.length = 0 then .ok (.invalidArgument, l)
    else
      let stamp ← index splitData 0
      if stamp.isEmpty then .ok (.invalidArgument, l)
      else
        let time ← split stamp (text ".")
        if time.length ≠ 2 then .ok (.invalidArgument, l)
        else
          let sec ← index time 0
          let nsec ← index time 1
          let sentTime : Timespec := ⟨strtol sec, strtol nsec⟩
          let duration := getDuration tm sentTime
          let l := { l with
            durationVec := l.durationVec ++ [duration]
            countArraived := l.countArraived + 1
            messegesSize := l.messegesSize + Int64.ofNat data.length }
          -- The size of `splitData` is not checked before this access.
          let field ← index splitData 1
          if field.isEmpty then .ok (.invalidArgument, l)
          else
            let l := if l.counter = 0 then { l with counter := strtol field } else l
            .ok (.ok, { l with messegesSize := l.messegesSize + Int64.ofNat data.length })

/-! ## What the handler makes of a text -/

inductive Decoded where
  | rejected
  | noCounter
  | accepted (sec nsec counter : Text)
  deriving DecidableEq

/-- The fields of a text, read through the cut at single delimiters. -/
def decode (data : Text) : Decoded :=
  match ListCut.fields (byte '|') data with
  | [] => .rejected
  | stamp :: rest =>
      match ListCut.fields (byte '.') stamp, rest with
      | [_, _], [] => .noCounter
      | [sec, nsec], counter :: _ => .accepted sec nsec counter
      | _, _ => .rejected

/-- The listener after an accepted message of `size` bytes. -/
def CustomListener.record (l : CustomListener) (tm : Timespec) (size : ℕ)
    (sec nsec counter : Text) : CustomListener where
  countArraived := l.countArraived + 1
  messegesSize := l.messegesSize + Int64.ofNat size + Int64.ofNat size
  durationVec := l.durationVec ++ [getDuration tm ⟨strtol sec, strtol nsec⟩]
  counter := if l.counter = 0 then strtol counter else l.counter

theorem not_isEmpty_of_toText {payload : UPayload} {data : Text}
    (h : payload.toText = .ok data) : payload.isEmpty = false := by
  cases hdata : payload.data with
  | nil => simp [UPayload.toText, hdata, cString] at h
  | cons b mem => simp [UPayload.isEmpty, hdata]

theorem onReceive_eq (l : CustomListener) (tm : Timespec) {payload : UPayload} {data : Text}
    (h : payload.toText = .ok data) :
    l.onReceive tm payload =
      match decode data with
      | .rejected => .ok (.invalidArgument, l)
      | .noCounter => .error .outOfRange
      | .accepted sec nsec counter => .ok (.ok, l.record tm data.length sec nsec counter) := by
  simp only [CustomListener.onReceive, not_isEmpty_of_toText h, h, text_bar, text_dot,
    split_eq_fields]
  cases hfields : ListCut.fields (byte '|') data with
  | nil => simp [decode, hfields, bind, Except.bind]
  | cons stamp rest =>
      have hstamp : stamp.isEmpty = false := by
        have hmem : stamp ∈ ListCut.fields (byte '|') data := by simp [hfields]
        simpa using ListCut.ne_nil_of_mem_pieces hmem
      cases htime : ListCut.fields (byte '.') stamp with
      | nil => simp [decode, hfields, htime, hstamp, index, bind, Except.bind]
      | cons sec tail =>
          cases tail with
          | nil => simp [decode, hfields, htime, hstamp, index, bind, Except.bind]
          | cons nsec tail =>
              cases tail with
              | nil =>
                  cases rest with
                  | nil => simp [decode, hfields, htime, hstamp, index, bind, Except.bind]
                  | cons counter rest =>
                      -- The second field is a piece as well, so the late return is dead.
                      have hcounter : counter.isEmpty = false := by
                        have hmem : counter ∈ ListCut.fields (byte '|') data := by simp [hfields]
                        simpa using ListCut.ne_nil_of_mem_pieces hmem
                      by_cases hzero : l.counter = 0 <;>
                        simp [decode, hfields, htime, hstamp, hcounter, hzero, index, bind,
                          Except.bind, CustomListener.record]
              | cons extra tail =>
                  simp [decode, hfields, htime, hstamp, index, bind, Except.bind]

/-- A call that returns either leaves the listener alone or records one
message. -/
theorem onReceive_eq_ok {l l' : CustomListener} {tm : Timespec} {payload : UPayload}
    {code : UCode} (h : l.onReceive tm payload = .ok (code, l')) :
    (code = .invalidArgument ∧ l' = l ∧
        ∀ data, payload.toText = .ok data → decode data = .rejected) ∨
      ∃ data sec nsec counter, payload.toText = .ok data ∧
        decode data = .accepted sec nsec counter ∧
        code = .ok ∧ l' = l.record tm data.length sec nsec counter := by
  cases hread : payload.toText with
  | error fault =>
      cases hempty : payload.isEmpty with
      | false => simp [CustomListener.onReceive, hempty, hread, bind, Except.bind] at h
      | true =>
          simp only [CustomListener.onReceive, hempty, if_true, Except.ok.injEq,
            Prod.mk.injEq] at h
          exact Or.inl ⟨h.1.symm, h.2.symm, by simp⟩
  | ok data =>
      rw [onReceive_eq l tm hread] at h
      cases hdecode : decode data with
      | rejected =>
          simp only [hdecode, Except.ok.injEq, Prod.mk.injEq] at h
          exact Or.inl ⟨h.1.symm, h.2.symm, by simp [hdecode]⟩
      | noCounter => simp [hdecode] at h
      | accepted sec nsec counter =>
          simp only [hdecode, Except.ok.injEq, Prod.mk.injEq] at h
          exact Or.inr ⟨data, sec, nsec, counter, rfl, hdecode, h.1.symm, h.2.symm⟩

end UpZenohExample
