import UpZenohExample.PubTest

/-!
# The sizes of the published payloads

Three programs build their payloads with the same text: `pub` and
`start_session` up to the size of the command line, the loop of `pub_test` up
to its own constant.  The size is an `int` and the length a `size_t`, so the
number of characters that are missing is computed modulo `2 ^ 64`.
-/

namespace UpZenohExample

open ByteText

/-- What is asked of `generateRandomString` (0 without a call), the text that
is built, and the number of bytes handed to `UPayload`. -/
structure Built where
  requested : UInt64
  data : Text
  handed : UInt64

def Built.of (msgSize : Int32) (tm : Timespec) (i : Int32) (draws : ℕ → Draw) : Built where
  requested :=
    let len := (header tm i).length
    if 0 < padding msgSize len then padding msgSize len else 0
  data := buildText msgSize tm i draws
  handed := msgSize.toInt64.toUInt64

inductive Builder where
  | pub
  | startSession
  | pubTest
  deriving DecidableEq, Repr

/-- The `msg_size` of a builder; `pub_test` does not look at the command line. -/
def Builder.msgSize (commandLine : Int32) : Builder → Int32
  | .pub => commandLine
  | .startSession => commandLine
  | .pubTest => UpZenohExample.msgSize

def Builder.build (builder : Builder) (commandLine : Int32) : Timespec → Int32 →
    (ℕ → Draw) → Built :=
  Built.of (builder.msgSize commandLine)

/-- The sizes in exact integer arithmetic, for a header of `len` characters. -/
def Built.Exact (b : Built) (msgSize : Int32) (len : ℕ) : Prop :=
  (b.requested.toNat : ℤ) = max 0 (msgSize.toInt - len) ∧
    (b.data.length : ℤ) = max (len : ℤ) msgSize.toInt ∧
    b.handed.toNat ≤ b.data.length

/-! ## Conversion to `size_t` -/

theorem toNat_toUInt64 (z : Int64) :
    (z.toUInt64.toNat : ℤ) = if 0 ≤ z.toInt then z.toInt else z.toInt + 2 ^ 64 := by
  have hcond := BitVec.toInt_eq_toNat_cond z.toBitVec
  have hlt := z.toUInt64.toNat_lt
  have hint : z.toInt = z.toBitVec.toInt := rfl
  have hnat : z.toUInt64.toNat = z.toBitVec.toNat := rfl
  rw [hnat] at hlt ⊢
  rw [hint]
  split at hcond <;> split <;> omega

theorem toNat_padding_cond (msgSize : Int32) {len : ℕ} (h : len ≤ 54) :
    ((padding msgSize len).toNat : ℤ) =
      if len ≤ msgSize.toInt then msgSize.toInt - len else msgSize.toInt - len + 2 ^ 64 := by
  have hsize := toNat_toUInt64 msgSize.toInt64
  rw [Int32.toInt_toInt64] at hsize
  have hlo := msgSize.le_toInt
  have hhi := msgSize.toInt_lt
  have hlen : (UInt64.ofNat len).toNat = len := by
    rw [UInt64.toNat_ofNat_of_lt']
    exact Nat.lt_of_le_of_lt h (by decide)
  rw [padding, UInt64.toNat_sub, hlen]
  split at hsize <;> split <;> omega

theorem requested_eq (msgSize : Int32) (tm : Timespec) (i : Int32) (draws : ℕ → Draw) :
    (Built.of msgSize tm i draws).requested = padding msgSize (header tm i).length := by
  simp only [Built.of]
  split
  · rfl
  · rename_i h
    exact (UInt64.le_zero_iff.mp (UInt64.not_lt.mp h)).symm

theorem length_data (msgSize : Int32) (tm : Timespec) (i : Int32) (draws : ℕ → Draw) :
    (Built.of msgSize tm i draws).data.length =
      (header tm i).length + (padding msgSize (header tm i).length).toNat := by
  simp only [Built.of, buildText]
  split
  · rw [List.length_append, length_generateRandomString]
  · rename_i h
    have hzero : (padding msgSize (header tm i).length).toNat = 0 := by
      rw [UInt64.le_zero_iff.mp (UInt64.not_lt.mp h)]
      rfl
    omega

theorem exact_of_iff (msgSize : Int32) (tm : Timespec) (i : Int32) (draws : ℕ → Draw) :
    (Built.of msgSize tm i draws).Exact msgSize (header tm i).length ↔
      (header tm i).length ≤ msgSize.toInt := by
  have hlen := length_header_le tm i
  have hpad := toNat_padding_cond msgSize hlen
  have hsize := toNat_toUInt64 msgSize.toInt64
  rw [Int32.toInt_toInt64] at hsize
  have hlo := msgSize.le_toInt
  rw [Built.Exact, requested_eq, length_data]
  by_cases hle : ((header tm i).length : ℤ) ≤ msgSize.toInt
  · have hnonneg : 0 ≤ msgSize.toInt := by omega
    rw [if_pos hle] at hpad
    rw [if_pos hnonneg] at hsize
    refine iff_of_true ⟨by omega, by omega, ?_⟩ hle
    show msgSize.toInt64.toUInt64.toNat ≤ _
    omega
  · rw [if_neg hle] at hpad
    refine iff_of_false ?_ hle
    rintro ⟨hrequested, -, -⟩
    omega

/-! ## The three builders -/

theorem payload_sizes_exact_iff (builder : Builder) (commandLine : Int32) (tm : Timespec)
    (i : Int32) (draws : ℕ → Draw) :
    (builder.build commandLine tm i draws).Exact (builder.msgSize commandLine)
        (header tm i).length ↔
      builder = .pubTest ∨ (header tm i).length ≤ commandLine.toInt := by
  have hlen := length_header_le tm i
  have hconst : UpZenohExample.msgSize.toInt = 200 := rfl
  rw [Builder.build, exact_of_iff]
  cases builder with
  | pub => simp [Builder.msgSize]
  | startSession => simp [Builder.msgSize]
  | pubTest =>
      simp only [Builder.msgSize, hconst, true_or, iff_true]
      omega

/-- With size 0 the number of missing characters wraps to almost `2 ^ 64`. -/
theorem payload_size_wraps :
    (Builder.pub.build 0 ⟨0, 0⟩ 0 fun _ ↦ ⟨0, 0, 0, 0⟩).requested.toNat = 2 ^ 64 - 6 ∧
      ¬ (Builder.pub.build 0 ⟨0, 0⟩ 0 fun _ ↦ ⟨0, 0, 0, 0⟩).Exact 0 (header ⟨0, 0⟩ 0).length := by
  have hlen : (header ⟨0, 0⟩ 0).length = 6 := by decide
  constructor
  · rw [Builder.build, requested_eq, hlen]
    rfl
  · rw [Builder.build, Builder.msgSize, exact_of_iff, hlen]
    decide

/-! ## Texts that get too long -/

/-- What the texts of a program are built from: the size on its command line, and
the clock reading for every round and URI. -/
structure Messages where
  msgSize : Int32
  tm : ℕ → ℕ → Timespec

/-- `generateRandomString` comes to its end: a `std::string` has at most `2 ^ 63 - 1`
characters, and asking for more ends in an exception. -/
def Messages.builds (m : Messages) (i u : ℕ) : Bool :=
  decide ((padding m.msgSize (header (m.tm i u) (.ofNat i)).length).toNat < 2 ^ 63)

/-- The text is built exactly when its header is not longer than the message. -/
theorem Messages.builds_iff {m : Messages} {i u : ℕ} :
    m.builds i u = true ↔
      ((header (m.tm i u) (.ofNat i)).length : ℤ) ≤ m.msgSize.toInt := by
  have hlen := length_header_le (m.tm i u) (.ofNat i)
  have hpad := toNat_padding_cond m.msgSize hlen
  have hlo := m.msgSize.le_toInt
  have hhi := m.msgSize.toInt_lt
  rw [Messages.builds, decide_eq_true_eq]
  split at hpad <;> omega

end UpZenohExample
