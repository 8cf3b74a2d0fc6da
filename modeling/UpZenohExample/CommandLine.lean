import UpZenohExample.Programs
import UpZenohExample.UriWiring

/-!
# The command lines of `benc` and `start_time`

Both programs take the number of loops, the size of a message and the number of
URIs.  An argument that is no number counts as 0.  Too few samples let a report
throw, and so does a size below the header of a message; nothing in `main` catches
that.
-/

namespace UpZenohExample

open ByteText

def numberOfLoops : Int32 := 20

def messageSize : Int32 := 100

/-- `strtol(argv[i])` as an `int` when there is such an argument. -/
def intArgument (argv : List Text) (i : ℕ) (preset : Int32) : Int32 :=
  match argv[i]? with
  | none => preset
  | some t => (strtol t).toInt32

theorem iterations_toInt32 {z : Int64} {n : ℕ} (hz : z.toInt = n) (hn : n < 2 ^ 31) :
    iterations z.toInt32 = n := by
  have hlt : (n : ℤ) < 2 ^ 31 := by exact_mod_cast hn
  rw [iterations, Int64.toInt_toInt32, hz, Int.bmod_eq_of_le (by omega) (by omega),
    Int.toNat_natCast]

theorem iterations_decimal {argv : List Text} {i n : ℕ} (hi : argv[i]? = some (decimal n))
    (hn : n < 2 ^ 31) (preset : Int32) : iterations (intArgument argv i preset) = n := by
  have hvalue : (strtol (decimal n)).toInt = n := by
    rw [toInt_strtol_of_isDigits (decimal_isDigits n), decimalValue_decimal]
    omega
  rw [intArgument, hi]
  exact iterations_toInt32 hvalue hn

/-- Neither a sign nor a digit stands behind the white space. -/
def NoNumber (t : Text) : Prop :=
  ∀ b rest, t.dropWhile isSpace = b :: rest → isDigit b = false ∧ b ≠ byte '-' ∧ b ≠ byte '+'

theorem iterations_noNumber {argv : List Text} {i : ℕ} {t : Text} (hi : argv[i]? = some t)
    (ht : NoNumber t) (preset : Int32) : iterations (intArgument argv i preset) = 0 := by
  have hvalue : strtol t = 0 := by
    unfold strtol
    split
    · rfl
    · next b rest hdrop =>
        obtain ⟨hdigit, hminus, hplus⟩ := ht b rest hdrop
        rw [if_neg hminus, if_neg hplus, List.takeWhile_cons, hdigit]
        rfl
  rw [intArgument, hi]
  exact iterations_toInt32 (show (strtol t).toInt = (0 : ℕ) by rw [hvalue]; rfl) (by decide)

/-- What `main` counts with for argument `i`: the default, the number the text is,
or 0 for a text that is no number. -/
def Counts (argv : List Text) (i : ℕ) (preset : Int32) (n : ℕ) : Prop :=
  argv[i]? = none ∧ iterations preset = n ∨
    ∃ t, argv[i]? = some t ∧ (t = decimal n ∨ NoNumber t ∧ n = 0)

theorem iterations_of_counts {argv : List Text} {i n : ℕ} {preset : Int32}
    (h : Counts argv i preset n) (hn : n < 2 ^ 31) :
    iterations (intArgument argv i preset) = n := by
  rcases h with ⟨hnone, rfl⟩ | ⟨t, ht, rfl | ⟨hno, rfl⟩⟩
  · rw [intArgument, hnone]
  · exact iterations_decimal ht hn preset
  · exact iterations_noNumber ht hno preset

section Mains

variable {α : Type} [Zero α] [Add α] [Sub α] [Mul α] [Div α] [NatCast α] [RatCast α] [Pow α ℕ]
variable [LE α] [DecidableLE α] (sqrt : α → α) (shown : α → Text)

/-- `main` of `benc`, by the exception it ends with, if any; `tm` is the clock when
a message is built. -/
def bencMain (subCalls : SubCalls α) (pubCalls : PubCalls α) (tm : ℕ → ℕ → Timespec)
    (argv : List Text) : Except Thrown Unit := do
  let loops := intArgument argv 1 numberOfLoops
  let msgSize := intArgument argv 2 messageSize
  let maxUri := intArgument argv 3 numberOfMaxUri
  let _ ← (sub sqrt shown subCalls loops maxUri).mapError .abort
  let _ ← pubProgram sqrt shown pubCalls ⟨msgSize, tm⟩ loops maxUri
  .ok ()

/-- `main` of `start_time`. -/
def startTimeMain (calls : SessionCalls α) (tm : ℕ → ℕ → Timespec) (argv : List Text) :
    Except Thrown Unit := do
  let loops := intArgument argv 1 numberOfLoops
  let msgSize := intArgument argv 2 messageSize
  let maxUri := intArgument argv 3 numberOfMaxUri
  let _ ← startSessionProgram sqrt shown calls ⟨msgSize, tm⟩ loops maxUri
  .ok ()

theorem bencMain_eq_ok_iff (subCalls : SubCalls α) (pubCalls : PubCalls α)
    (tm : ℕ → ℕ → Timespec) (argv : List Text) :
    bencMain sqrt shown subCalls pubCalls tm argv = .ok () ↔
      (∃ rows, sub sqrt shown subCalls (intArgument argv 1 numberOfLoops)
        (intArgument argv 3 numberOfMaxUri) = .ok rows) ∧
      ∃ rows, pubProgram sqrt shown pubCalls ⟨intArgument argv 2 messageSize, tm⟩
        (intArgument argv 1 numberOfLoops) (intArgument argv 3 numberOfMaxUri) = .ok rows := by
  simp only [bencMain, bind_eq_ok]
  cases sub sqrt shown subCalls (intArgument argv 1 numberOfLoops)
    (intArgument argv 3 numberOfMaxUri) <;> simp [Except.mapError]

theorem startTimeMain_eq_ok_iff (calls : SessionCalls α) (tm : ℕ → ℕ → Timespec)
    (argv : List Text) :
    startTimeMain sqrt shown calls tm argv = .ok () ↔
      ∃ rows, startSessionProgram sqrt shown calls ⟨intArgument argv 2 messageSize, tm⟩
        (intArgument argv 1 numberOfLoops) (intArgument argv 3 numberOfMaxUri) = .ok rows := by
  simp [startTimeMain, bind_eq_ok]

/-- The programs end normally exactly when each report has been given up after a
failing call that comes before a text gets too long, or every text is built, no call
fails and the report has from 2 up to `2 ^ 31 - 1` samples.  The second argument is
the size of the messages, whatever text it is. -/
theorem command_line_outcome {argv : List Text} {loops uris : ℕ} (hloops : loops < 2 ^ 31)
    (huris : uris < 2 ^ 31) (hfirst : Counts argv 1 numberOfLoops loops)
    (hthird : Counts argv 3 numberOfMaxUri uris) (tm : ℕ → ℕ → Timespec) :
    (∀ (subCalls : SubCalls α) (pubCalls : PubCalls α),
      bencMain sqrt shown subCalls pubCalls tm argv = .ok () ↔
        (subCalls.Fails loops uris ∨ Reportable (loops * uris)) ∧
          (pubCalls.ending ⟨intArgument argv 2 messageSize, tm⟩ loops uris = some .failed ∨
            pubCalls.Ok ⟨intArgument argv 2 messageSize, tm⟩ loops uris ∧
              Reportable ((loops - 1) * uris))) ∧
    ∀ calls : SessionCalls α, startTimeMain sqrt shown calls tm argv = .ok () ↔
      calls.ending ⟨intArgument argv 2 messageSize, tm⟩ loops uris = some .failed ∨
        (∀ i < loops, calls.RoundOk ⟨intArgument argv 2 messageSize, tm⟩ uris i) ∧
          Reportable loops ∧ Reportable (loops * uris) := by
  have hloops' := iterations_of_counts hfirst hloops
  have huris' := iterations_of_counts hthird huris
  constructor
  · intro subCalls pubCalls
    rw [bencMain_eq_ok_iff, exists_sub_iff,
      (pubProgram_reportsOn sqrt shown pubCalls _ _ _).exists_ok_iff, hloops', huris',
      PubCalls.ending_eq_none_iff]
    simp [length_roundSamples]
  · intro calls
    rw [startTimeMain_eq_ok_iff,
      (startSessionProgram_reportsOn sqrt shown calls _ _ _).exists_ok_iff, hloops', huris',
      SessionCalls.ending_eq_none_iff]
    simp [length_roundSamples]

end Mains

/-- `benc 3 100 1` ends with its reports.  With `benc 20 3 10` the first text of `pub`
gets too long, since its header has 6 characters. -/
theorem command_line_outcome_sizes :
    let main := bencMain (fun q : ℚ ↦ q) (FixedPoint.fixedText 9)
      ⟨true, fun _ _ ↦ true, fun _ _ ↦ true, fun _ _ ↦ 1, fun _ _ ↦ 2⟩
      ⟨true, fun _ _ ↦ true, fun _ _ ↦ 1⟩ fun _ _ ↦ ⟨0, 0⟩
    main [text "benc", text "3", text "100", text "1"] = .ok () ∧
      main [text "benc", text "20", text "3", text "10"] ≠ .ok () := by
  intro main
  have hcount {t : Text} {n : ℕ} (h : t = decimal n) (argv : List Text) (i : ℕ)
      (hi : argv[i]? = some t) (preset : Int32) : Counts argv i preset n :=
    Or.inr ⟨t, hi, Or.inl h⟩
  constructor
  · have hsize : intArgument [text "benc", text "3", text "100", text "1"] 2 messageSize = 100 := by
      decide
    refine ((command_line_outcome (fun q : ℚ ↦ q) (FixedPoint.fixedText 9)
      (show 3 < 2 ^ 31 by decide) (show 1 < 2 ^ 31 by decide) (hcount (by decide) _ 1 rfl _)
      (hcount (by decide) _ 3 rfl _) _).1 _ _).mpr ⟨Or.inr (by decide), Or.inr ⟨?_, by decide⟩⟩
    rw [hsize]
    refine ⟨rfl, fun i _ u _ ↦ ⟨?_, rfl⟩⟩
    have hlen := length_header_le ⟨0, 0⟩ (.ofNat i)
    rw [Messages.builds_iff]
    exact (Int.ofNat_le.mpr hlen).trans (by decide)
  · have hsize : intArgument [text "benc", text "20", text "3", text "10"] 2 messageSize = 3 := by
      decide
    rw [Ne, (command_line_outcome (fun q : ℚ ↦ q) (FixedPoint.fixedText 9)
      (show 20 < 2 ^ 31 by decide) (show 10 < 2 ^ 31 by decide) (hcount (by decide) _ 1 rfl _)
      (hcount (by decide) _ 3 rfl _) _).1, hsize]
    have hfirst : messageEnding (Messages.builds ⟨3, fun _ _ ↦ ⟨0, 0⟩⟩ 0 0) true =
        some .lengthError := by decide
    rintro ⟨-, hending | ⟨⟨-, hall⟩, -⟩⟩
    · simp [PubCalls.ending, List.range_succ_eq_map, hfirst] at hending
    · have hbuilds := (hall 0 (by decide) 0 (by decide)).1
      revert hbuilds
      decide

end UpZenohExample
