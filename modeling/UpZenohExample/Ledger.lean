import Mathlib.Algebra.BigOperators.Group.List.Basic
import UpZenohExample.Acceptance
import UpZenohExample.Lib.Run

/-!
# Runs of the listener

A listener summarises the messages it has accepted.  The ledger of a run keeps
these messages themselves, one `Entry` each, and `Refines` says how the fields
of the listener follow from it.  One call refines one step of the ledger, and
the laws about whole runs are read off the ledger.
-/

namespace UpZenohExample

open ByteText LabelledRun

/-- A call of the handler: the clock reading and the payload. -/
structure Message where
  tm : Timespec
  payload : UPayload

/-- A listener and the codes its calls have returned. -/
structure Delivery where
  listener : CustomListener
  codes : List UCode

def Delivery.fresh : Delivery := ⟨{}, []⟩

def deliver (d : Delivery) (m : Message) : Option Delivery :=
  match d.listener.onReceive m.tm m.payload with
  | .ok (code, l) => some ⟨l, d.codes ++ [code]⟩
  | .error _ => none

/-! ## The ledger -/

structure Entry where
  duration : ℚ
  bytes : ℕ
  counter : Int64

def Message.textLength (m : Message) : ℕ :=
  match m.payload.toText with
  | .ok data => data.length
  | .error _ => 0

def Message.entry (m : Message) : Option Entry :=
  match m.payload.toText with
  | .error _ => none
  | .ok data =>
      match decode data with
      | .accepted sec nsec counter =>
          some ⟨getDuration m.tm ⟨strtol sec, strtol nsec⟩, data.length, strtol counter⟩
      | _ => none

def Message.code (m : Message) : UCode :=
  if m.entry.isSome then .ok else .invalidArgument

def ledger (ms : List Message) : List Entry := ms.filterMap Message.entry

def keepFirst (c : Int64) (e : Entry) : Int64 := if c = 0 then e.counter else c

/-- The listener is the summary of the entries. -/
structure Refines (l : CustomListener) (entries : List Entry) : Prop where
  countArraived : l.countArraived = Int32.ofNat entries.length
  messegesSize : l.messegesSize = Int64.ofNat (2 * (entries.map Entry.bytes).sum)
  durationVec : l.durationVec = entries.map Entry.duration
  counter : l.counter = entries.foldl keepFirst 0

theorem refines_fresh : Refines {} [] :=
  ⟨rfl, rfl, rfl, rfl⟩

theorem Refines.record {l : CustomListener} {entries : List Entry} (h : Refines l entries)
    (tm : Timespec) (size : ℕ) (sec nsec counter : Text) :
    Refines (l.record tm size sec nsec counter)
      (entries ++ [⟨getDuration tm ⟨strtol sec, strtol nsec⟩, size, strtol counter⟩]) where
  countArraived := by
    rw [CustomListener.record, h.countArraived, List.length_append, Int32.ofNat_add]
    rfl
  messegesSize := by
    have hsum : 2 * ((entries.map Entry.bytes).sum + size) =
        2 * (entries.map Entry.bytes).sum + size + size := by omega
    simp only [CustomListener.record, h.messegesSize, List.map_append, List.sum_append,
      List.map_cons, List.map_nil, List.sum_cons, List.sum_nil, Nat.add_zero]
    rw [hsum, Int64.ofNat_add, Int64.ofNat_add]
  durationVec := by simp [CustomListener.record, h.durationVec]
  counter := by simp [CustomListener.record, h.counter, keepFirst]

theorem entry_eq_some_iff {m : Message} {e : Entry} :
    m.entry = some e ↔ ∃ data sec nsec counter, m.payload.toText = .ok data ∧
      decode data = .accepted sec nsec counter ∧
      e = ⟨getDuration m.tm ⟨strtol sec, strtol nsec⟩, data.length, strtol counter⟩ := by
  cases hread : m.payload.toText with
  | error fault => simp [Message.entry, hread]
  | ok data => cases hdecode : decode data <;> simp [Message.entry, hread, hdecode, eq_comm]

theorem onReceive_refines {l l' : CustomListener} {m : Message} {code : UCode}
    {entries : List Entry} (hl : Refines l entries)
    (h : l.onReceive m.tm m.payload = .ok (code, l')) :
    code = m.code ∧ Refines l' (entries ++ m.entry.toList) := by
  rcases onReceive_eq_ok h with ⟨hcode, hl', hrejected⟩ |
    ⟨data, sec, nsec, counter, hread, hdecode, hcode, hl'⟩
  · have hnone : m.entry = none := by
      by_contra hsome
      obtain ⟨e, he⟩ := Option.ne_none_iff_exists'.mp hsome
      obtain ⟨data, sec, nsec, counter, hread, hdecode, -⟩ := entry_eq_some_iff.mp he
      simp [hrejected data hread] at hdecode
    refine ⟨by simp [hcode, Message.code, hnone], ?_⟩
    simpa [hnone, hl'] using hl
  · have hsome := entry_eq_some_iff.mpr ⟨data, sec, nsec, counter, hread, hdecode, rfl⟩
    refine ⟨by simp [hcode, Message.code, hsome], ?_⟩
    rw [hsome, hl']
    exact hl.record m.tm data.length sec nsec counter

theorem deliver_eq_some {d d' : Delivery} {m : Message} (h : deliver d m = some d') :
    ∃ code, d.listener.onReceive m.tm m.payload = .ok (code, d'.listener) ∧
      d'.codes = d.codes ++ [code] := by
  unfold deliver at h
  split at h
  · rename_i code l hcall
    simp only [Option.some.injEq] at h
    exact ⟨code, by rw [hcall, ← h], by rw [← h]⟩
  · simp at h

theorem run_refines {ms : List Message} {d : Delivery}
    (h : run deliver .fresh ms = some d) :
    Refines d.listener (ledger ms) ∧ d.codes = ms.map Message.code := by
  induction ms using List.reverseRecOn generalizing d with
  | nil =>
      have hd : Delivery.fresh = d := by simpa using h
      subst hd
      exact ⟨refines_fresh, rfl⟩
  | append_singleton ms m ih =>
      obtain ⟨mid, hmid, hlast⟩ := (run_snoc_eq_some deliver).mp h
      obtain ⟨hrefines, hcodes⟩ := ih hmid
      obtain ⟨code, hcall, hcodes'⟩ := deliver_eq_some hlast
      obtain ⟨hcode, hnext⟩ := onReceive_refines hrefines hcall
      refine ⟨?_, by rw [hcodes', hcodes, hcode, List.map_append]; rfl⟩
      rw [ledger, List.filterMap_append]
      cases hentry : m.entry <;> simpa [hentry, ledger] using hnext

theorem count_ok_map_code (ms : List Message) :
    (ms.map Message.code).count .ok = (ledger ms).length := by
  induction ms with
  | nil => rfl
  | cons m ms ih =>
      rw [ledger] at ih
      cases hentry : m.entry <;> simp [ledger, Message.code, hentry, ih]

end UpZenohExample
