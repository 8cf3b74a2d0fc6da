import Mathlib.Data.Rat.Defs
import UpZenohExample.Lib.ByteText
import UpZenohExample.Lib.Cut

/-!
# The helpers of `utils.h`

`std::string` is a list of bytes and `std::vector` a list.  A call that would
leave the memory it may read, or never return, is a `Fault`.  Durations are
exact rationals.
-/

namespace UpZenohExample

open ByteText

/-- An index past the end, a read past the end of a buffer, or a loop that has
used up its iterations. -/
inductive Fault where
  | outOfRange
  | overRead
  | diverges
  deriving DecidableEq, Repr

/-! ## `std::string` and `std::vector` -/

/-- `data.find(delimiter, prev)`, with `none` for `npos`. -/
def find (data delimiter : Text) (prev : ℕ) : Option ℕ :=
  if prev ≤ data.length then
    (ListCut.firstOccurrence delimiter (data.drop prev)).map (· + prev)
  else none

/-- `data.substr(pos, n)`, which throws `std::out_of_range` past the end. -/
def substr (data : Text) (pos n : ℕ) : Except Fault Text :=
  if pos ≤ data.length then .ok ((data.drop pos).take n) else .error .outOfRange

def index {α : Type*} (vec : List α) (i : ℕ) : Except Fault α :=
  match vec[i]? with
  | some x => .ok x
  | none => .error .outOfRange

/-! ## `split` -/

theorem text_bar : text "|" = [byte '|'] := rfl

theorem text_dot : text "." = [byte '.'] := rfl

/-- The do-while loop of `split`; `fuel` bounds the number of iterations. -/
def splitLoop (data delimiter : Text) : ℕ → ℕ → List Text → Except Fault (List Text)
  | 0, _, _ => .error .diverges
  | fuel + 1, prev, splitData =>
      let pos := (find data delimiter prev).getD data.length
      match substr data prev (pos - prev) with
      | .error fault => .error fault
      | .ok p =>
          let splitData := if p.isEmpty then splitData else splitData ++ [p]
          let prev := pos + delimiter.length
          if pos < data.length ∧ prev < data.length then
            splitLoop data delimiter fuel prev splitData
          else .ok splitData

def split (data delimiter : Text) : Except Fault (List Text) :=
  splitLoop data delimiter (data.length + 1) 0 []

/-- One iteration from a position inside the string, and all that follow it,
append the pieces of the rest of the string. -/
theorem splitLoop_eq {data delimiter : Text} (hdelim : delimiter ≠ []) {fuel prev : ℕ}
    (hprev : prev ≤ data.length) (hfuel : data.length < fuel + prev) (splitData : List Text) :
    splitLoop data delimiter fuel prev splitData =
      .ok (splitData ++ ListCut.pieces delimiter hdelim (data.drop prev)) := by
  induction fuel generalizing prev splitData with
  | zero => omega
  | succ fuel ih =>
      have hpos := List.length_pos_iff.mpr hdelim
      cases hfind : ListCut.firstOccurrence delimiter (data.drop prev) with
      | none =>
          have hp : (data.drop prev).take (data.length - prev) = data.drop prev :=
            List.take_of_length_le (by rw [List.length_drop])
          simp only [splitLoop, find, if_pos hprev, hfind, Option.map_none, Option.getD_none,
            substr, hp, lt_irrefl, false_and, if_false, ListCut.pieces_of_none hdelim hfind]
          split <;> simp
      | some q =>
          have hq := (ListCut.firstOccurrence_add_length_le hfind).2
          rw [List.length_drop] at hq
          simp only [splitLoop, find, if_pos hprev, hfind, Option.map_some, Option.getD_some,
            substr, Nat.add_sub_cancel, ListCut.pieces_of_some hdelim hfind, List.drop_drop]
          rw [show prev + (q + delimiter.length) = q + prev + delimiter.length by omega]
          by_cases hlast : q + prev + delimiter.length < data.length
          · rw [if_pos ⟨by omega, hlast⟩, ih (by omega) (by omega)]
            split <;> simp
          · -- The delimiter ends the string, so nothing is left to cut.
            have hnil : data.drop (q + prev + delimiter.length) = [] :=
              List.drop_eq_nil_of_le (by omega)
            rw [if_neg (fun h ↦ hlast h.2), hnil, ListCut.pieces_nil]
            split <;> simp

/-- The loop ends, stays inside the string and returns the nonempty pieces. -/
theorem split_eq_pieces (data : Text) {delimiter : Text} (hdelim : delimiter ≠ []) :
    split data delimiter = .ok (ListCut.pieces delimiter hdelim data) := by
  rw [split, splitLoop_eq hdelim (Nat.zero_le _) (by omega)]
  rfl

/-- The result are the nonempty pieces of the one cut of the string. -/
theorem split_correct (data delimiter : Text) (hdelim : delimiter ≠ []) :
    ∃ cuts result, (∀ ps, ListCut.IsCut delimiter data ps ↔ ps = cuts) ∧
      (result = cuts.filter fun p ↦ !p.isEmpty) ∧
      split data delimiter = .ok result ∧
      (∀ fuel, data.length < fuel → splitLoop data delimiter fuel 0 [] = .ok result) ∧
      (∀ p ∈ result, p ≠ [] ∧ ¬ delimiter <:+: p) ∧
      data = delimiter.intercalate cuts ∧ result.flatten = cuts.flatten := by
  have hcut := ListCut.isCut_cut delimiter hdelim data
  refine ⟨ListCut.cut delimiter hdelim data, ListCut.pieces delimiter hdelim data,
    fun ps ↦ ListCut.isCut_iff hdelim, rfl, split_eq_pieces data hdelim, ?_, ?_,
    hcut.eq_intercalate, ListCut.flatten_filter_ne_nil _⟩
  · intro fuel hfuel
    rw [splitLoop_eq hdelim (Nat.zero_le _) (by omega)]
    rfl
  · intro p hp
    exact ⟨ListCut.ne_nil_of_mem_pieces hp,
      hcut.notInfix hdelim p (List.mem_of_mem_filter hp)⟩

/-- A candidate match that overlaps an occurrence is passed over. -/
theorem split_correct_overlap :
    ∃ cuts result, (∀ ps, ListCut.IsCut (text "aa") (text "baaab") ps ↔ ps = cuts) ∧
      (result = cuts.filter fun p ↦ !p.isEmpty) ∧
      split (text "baaab") (text "aa") = .ok result ∧
      (∀ fuel, (text "baaab").length < fuel →
        splitLoop (text "baaab") (text "aa") fuel 0 [] = .ok result) ∧
      (∀ p ∈ result, p ≠ [] ∧ ¬ text "aa" <:+: p) ∧
      text "baaab" = (text "aa").intercalate cuts ∧ result.flatten = cuts.flatten :=
  split_correct (text "baaab") (text "aa") (by decide)

theorem split_eq_fields (data : Text) (d : UInt8) :
    split data [d] = .ok (ListCut.fields d data) :=
  split_eq_pieces data _

/-! ## Time -/

structure Timespec where
  tvSec : Int64
  tvNsec : Int64
  deriving DecidableEq, Repr

def Timespec.seconds (tm : Timespec) : ℚ := tm.tvSec.toInt + tm.tvNsec.toInt * (1 / 10 ^ 9)

def getDuration (stop start : Timespec) : ℚ := stop.seconds - start.seconds

/-! ## `generateRandomString` -/

/-- What the distributions of one iteration return. -/
structure Draw where
  choice : Fin 3
  lowerCase : Fin 26
  upperCase : Fin 26
  number : Fin 10

def Draw.char (d : Draw) : UInt8 :=
  match d.choice.val with
  | 0 => byte 'a' + UInt8.ofNat d.lowerCase.val
  | 1 => byte 'A' + UInt8.ofNat d.upperCase.val
  | 2 => byte '0' + UInt8.ofNat d.number.val
  | _ => byte 'A' + UInt8.ofNat d.upperCase.val

/-- `draws i` is what the engine yields in iteration `i`. -/
def generateRandomString (size : UInt64) (draws : ℕ → Draw) : Text :=
  (List.range size.toNat).map fun i ↦ (draws i).char

@[simp] theorem length_generateRandomString (size : UInt64) (draws : ℕ → Draw) :
    (generateRandomString size draws).length = size.toNat := by
  simp [generateRandomString]

def isAlnum (b : UInt8) : Bool :=
  (97 ≤ b.toNat && b.toNat ≤ 122) || (65 ≤ b.toNat && b.toNat ≤ 90) || isDigit b

theorem Draw.isAlnum_char (d : Draw) : isAlnum d.char = true := by
  have hlower : ∀ k : Fin 26, isAlnum (byte 'a' + UInt8.ofNat k.val) = true := by decide
  have hupper : ∀ k : Fin 26, isAlnum (byte 'A' + UInt8.ofNat k.val) = true := by decide
  have hnumber : ∀ k : Fin 10, isAlnum (byte '0' + UInt8.ofNat k.val) = true := by decide
  unfold Draw.char
  split
  · exact hlower _
  · exact hupper _
  · exact hnumber _
  · exact hupper _

theorem notMem_generateRandomString {size : UInt64} {draws : ℕ → Draw} {b : UInt8}
    (hb : isAlnum b = false) : b ∉ generateRandomString size draws := by
  intro hmem
  obtain ⟨i, -, rfl⟩ := List.mem_map.mp hmem
  simp [Draw.isAlnum_char] at hb

end UpZenohExample
