import Mathlib.Order.Lattice.Nat
import UpZenohExample.Lib.KeySet
import UpZenohExample.Lib.NameOrder
import UpZenohExample.Report
import UpZenohExample.RunTests
import UpZenohExample.UriText

/-!
# The URIs of a run

`run_tests` builds the URIs of a run and hands them to every child on its
command line.  A publisher puts them into a `std::set` that compares serialized
URIs and sends to all of them in every round; a subscriber registers one
listener for each argument, for a URI it picks at random.  The serializer is
not part of the repository.
-/

namespace UpZenohExample

open ByteText

/-- The fields that `run_tests` sets; the authority stays empty. -/
structure UUri where
  entityId : ℕ
  majorVersion : ℕ
  resourceId : ℕ
  deriving DecidableEq, Repr

/-- The fields fit the sizes that a micro URI has for them. -/
structure UUri.Short (uri : UUri) : Prop where
  entityId : uri.entityId < 2 ^ 16
  majorVersion : uri.majorVersion < 2 ^ 8
  resourceId : uri.resourceId < 2 ^ 16

def builtUri (i : ℕ) : UUri where
  entityId := i + 1
  majorVersion := 1
  resourceId := (i + 1) <<< 3

def numberOfMaxUri : Int32 := 15

/-- `num_of_uri` for the third argument of `run_tests`. -/
def numOfUri (arg : Option Text) : Int32 :=
  match arg with
  | none => 10
  | some t =>
      let n := (strtol t).toInt32
      if numberOfMaxUri < n then numberOfMaxUri else n

/-- The arguments that child `k` finds, a text for each string of its parent. -/
def childArgv (k : ℕ) (uriVec : List Text) : Option (List Text) :=
  ([processName k, instanceName k] ++ uriVec).mapM argument

/-- The arguments from the third on. -/
def getUristr (argv : List Text) : List Text := argv.drop 2

section Serializer

variable (serialize : UUri → List UInt8) (deserialize : List UInt8 → UUri)

/-- `uri_vec`. -/
def uriVec (num : Int32) : List Text :=
  (List.range (iterations num)).map fun i ↦
    convertSerializedURItoString (serialize (builtUri i))

def readUri (str : Text) : Option UUri := (convertHexStringToUint8Vec str).map deserialize

/-- What `operator<` of `my_uuri` compares. -/
def uriKey (uri : UUri) : List ℕ := NameOrder.codes (serialize uri)

/-- The `std::set` of `pub_test`. -/
def publisherUris (uriStr : List Text) : Option (List UUri) := do
  let uris ← uriStr.mapM (readUri deserialize)
  some (KeySet.ofList (uriKey serialize) uris)

/-- The array of `sub_test`, where `picks i` is what `getRandomInRange` returns
for entry `i`. -/
def subscriberUris (uriStr : List Text) (picks : ℕ → ℕ) : Option (List UUri) :=
  (List.range uriStr.length).mapM fun i ↦ do
    let str ← uriStr[picks i]?
    readUri deserialize str

def ReadsBack : Prop := ∀ uri : UUri, uri.Short → deserialize (serialize uri) = uri

end Serializer

/-! ## The command line -/

theorem toInt_numOfUri_le (arg : Option Text) : (numOfUri arg).toInt ≤ 15 := by
  unfold numOfUri
  split
  · decide
  · dsimp only
    split
    · decide
    · rename_i h
      exact Int32.le_iff_toInt_le.mp (Int32.not_lt.mp h)

theorem iterations_numOfUri_le (arg : Option Text) : iterations (numOfUri arg) ≤ 15 := by
  have h := toInt_numOfUri_le arg
  unfold iterations
  omega

theorem builtUri_short {i : ℕ} (h : i < 15) : (builtUri i).Short where
  entityId := by
    simp only [builtUri]
    omega
  majorVersion := by simp [builtUri]
  resourceId := by
    simp only [builtUri, Nat.shiftLeft_eq]
    omega

theorem builtUri_injective {i j : ℕ} (h : builtUri i = builtUri j) : i = j :=
  Nat.succ_injective (congrArg UUri.entityId h)

theorem mapM_eq_some {α β : Type} {f : α → Option β} {g : α → β} {xs : List α}
    (h : ∀ x ∈ xs, f x = some (g x)) : xs.mapM f = some (xs.map g) := by
  induction xs with
  | nil => rfl
  | cons x xs ih =>
      rw [List.mapM_cons, h x List.mem_cons_self, ih fun y hy ↦ h y (List.mem_cons_of_mem x hy)]
      rfl

theorem zero_notMem_processName (k : ℕ) : 0 ∉ processName k := by
  unfold processName
  split <;> decide

theorem zero_notMem_instanceName (k : ℕ) : 0 ∉ instanceName k := by
  rw [instanceName, List.mem_append, not_or]
  exact ⟨by decide, (decimal_isDigits k).notMem rfl⟩

/-- Every string of the parent reaches the child. -/
theorem childArgv_eq (serialize : UUri → List UInt8) (k : ℕ) (num : Int32) :
    childArgv k (uriVec serialize num) =
      some ([processName k, instanceName k] ++ uriVec serialize num) := by
  have hall : ∀ s ∈ [processName k, instanceName k] ++ uriVec serialize num,
      argument s = some (id s) := by
    intro s hs
    apply argument_eq
    rcases List.mem_append.mp hs with hname | huri
    · rcases List.mem_pair.mp hname with rfl | rfl
      · exact zero_notMem_processName k
      · exact zero_notMem_instanceName k
    · obtain ⟨i, -, rfl⟩ := List.mem_map.mp huri
      exact zero_notMem_convertSerializedURItoString _
  rw [childArgv, mapM_eq_some hall, List.map_id]

/-! ## The children -/

section Serializer

variable {serialize : UUri → List UInt8} {deserialize : List UInt8 → UUri}

theorem readUri_built (hround : ReadsBack serialize deserialize) {i : ℕ} (hi : i < 15) :
    readUri deserialize (convertSerializedURItoString (serialize (builtUri i))) =
      some (builtUri i) := by
  rw [readUri, convertHexStringToUint8Vec_convert, Option.map_some,
    hround _ (builtUri_short hi)]

theorem nodup_keys (hround : ReadsBack serialize deserialize) {n : ℕ} (hn : n ≤ 15) :
    (((List.range n).map builtUri).map (uriKey serialize)).Nodup := by
  rw [List.map_map]
  apply List.Nodup.map_on _ List.nodup_range
  intro i hi j hj heq
  rw [List.mem_range] at hi hj
  have hbytes : serialize (builtUri i) = serialize (builtUri j) := NameOrder.codes_injective heq
  have hread := congrArg deserialize hbytes
  rw [hround _ (builtUri_short (by omega)), hround _ (builtUri_short (by omega))] at hread
  exact builtUri_injective hread

theorem publisherUris_eq (hround : ReadsBack serialize deserialize) (arg : Option Text) :
    publisherUris serialize deserialize (uriVec serialize (numOfUri arg)) =
      some (KeySet.ofList (uriKey serialize)
        ((List.range (iterations (numOfUri arg))).map builtUri)) := by
  have hread : (uriVec serialize (numOfUri arg)).mapM (readUri deserialize) =
      some ((List.range (iterations (numOfUri arg))).map builtUri) := by
    rw [uriVec, List.mapM_map]
    apply mapM_eq_some
    intro i hi
    exact readUri_built hround (Nat.lt_of_lt_of_le (List.mem_range.mp hi)
      (iterations_numOfUri_le arg))
  rw [publisherUris, hread]
  rfl

theorem subscriberUris_eq (hround : ReadsBack serialize deserialize) (arg : Option Text)
    {picks : ℕ → ℕ}
    (hpicks : ∀ i < iterations (numOfUri arg), picks i < iterations (numOfUri arg)) :
    subscriberUris deserialize (uriVec serialize (numOfUri arg)) picks =
      some ((List.range (iterations (numOfUri arg))).map fun i ↦ builtUri (picks i)) := by
  have hlen : (uriVec serialize (numOfUri arg)).length = iterations (numOfUri arg) := by
    rw [uriVec, List.length_map, List.length_range]
  rw [subscriberUris, hlen]
  apply mapM_eq_some
  intro i hi
  have hpick := hpicks i (List.mem_range.mp hi)
  have hget : (uriVec serialize (numOfUri arg))[picks i]? =
      some (convertSerializedURItoString (serialize (builtUri (picks i)))) := by
    rw [uriVec, List.getElem?_map, List.getElem?_range hpick, Option.map_some]
  rw [hget]
  exact readUri_built hround (Nat.lt_of_lt_of_le hpick (iterations_numOfUri_le arg))

/-- Every publisher sends to each URI of the run once in a round, in the order of
the serialized URIs, and every listener is registered for one of them. -/
theorem uris_reach_children (hround : ReadsBack serialize deserialize) (arg : Option Text)
    (k : ℕ) (picks : ℕ → ℕ)
    (hpicks : ∀ i < iterations (numOfUri arg), picks i < iterations (numOfUri arg)) :
    ∃ argv published subscribed,
      childArgv k (uriVec serialize (numOfUri arg)) = some argv ∧
      publisherUris serialize deserialize (getUristr argv) = some published ∧
      published.Perm ((List.range (iterations (numOfUri arg))).map builtUri) ∧
      KeySet.Sorted (uriKey serialize) published ∧
      subscriberUris deserialize (getUristr argv) picks = some subscribed ∧
      subscribed.length = iterations (numOfUri arg) ∧ ∀ uri ∈ subscribed, uri ∈ published := by
  have hperm := KeySet.ofList_perm (nodup_keys hround (iterations_numOfUri_le arg))
  refine ⟨_, _, _, childArgv_eq serialize k _, publisherUris_eq hround arg, hperm,
    KeySet.sorted_ofList _, subscriberUris_eq hround arg hpicks, ?_, ?_⟩
  · rw [List.length_map, List.length_range]
  · intro uri huri
    obtain ⟨i, hi, rfl⟩ := List.mem_map.mp huri
    rw [hperm.mem_iff]
    exact List.mem_map_of_mem (List.mem_range.mpr (hpicks i (List.mem_range.mp hi)))

end Serializer

/-- A local micro URI: a version, a type, the two identifiers and the major
version, which one unused byte follows. -/
def microUri (uri : UUri) : List UInt8 :=
  [1, 0, UInt8.ofNat (uri.resourceId / 256), UInt8.ofNat (uri.resourceId % 256),
    UInt8.ofNat (uri.entityId / 256), UInt8.ofNat (uri.entityId % 256),
    UInt8.ofNat uri.majorVersion, 0]

def ofMicroUri : List UInt8 → UUri
  | [_, _, r, r', e, e', v, _] =>
      ⟨256 * e.toNat + e'.toNat, v.toNat, 256 * r.toNat + r'.toNat⟩
  | _ => ⟨0, 0, 0⟩

theorem readsBack_microUri : ReadsBack microUri ofMicroUri := by
  intro uri hshort
  have hbyte {n : ℕ} (h : n < 256) : (UInt8.ofNat n).toNat = n := UInt8.toNat_ofNat_of_lt' h
  have hpair {n : ℕ} (h : n < 2 ^ 16) :
      256 * (UInt8.ofNat (n / 256)).toNat + (UInt8.ofNat (n % 256)).toNat = n := by
    rw [hbyte (by omega), hbyte (Nat.mod_lt n (by decide)), Nat.div_add_mod]
  simp only [microUri, ofMicroUri, hpair hshort.entityId, hpair hshort.resourceId,
    hbyte hshort.majorVersion]

/-- Without arguments a run has 10 URIs. -/
theorem uris_reach_children_default : ∃ argv published subscribed,
    childArgv 1 (uriVec microUri (numOfUri none)) = some argv ∧
    publisherUris microUri ofMicroUri (getUristr argv) = some published ∧
    published.Perm ((List.range 10).map builtUri) ∧
    KeySet.Sorted (uriKey microUri) published ∧
    subscriberUris ofMicroUri (getUristr argv) (fun i ↦ i / 2) = some subscribed ∧
    subscribed.length = 10 ∧ ∀ uri ∈ subscribed, uri ∈ published :=
  uris_reach_children readsBack_microUri none 1 (fun i ↦ i / 2)
    fun i hi ↦ Nat.lt_of_le_of_lt (Nat.div_le_self i 2) hi

end UpZenohExample
