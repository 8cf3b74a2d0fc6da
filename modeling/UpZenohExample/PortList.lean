import Mathlib.Data.List.Nodup
import Mathlib.Data.List.Range
import UpZenohExample.Lib.NameOrder
import UpZenohExample.RunTests

/-!
# The connect lists of `utils.h`

`createServerPortlist` maps the name of every instance to its role and its
address, a bracketed list of endpoints.  `getAllTypeKeys` joins the addresses
of one role.  An `unordered_map` is the list of its entries in the order in
which it is iterated, and that order is arbitrary.
-/

namespace UpZenohExample

open ByteText

abbrev ConfMap := List (Text × Text × Text)

/-- `conf_map[key] = value`. -/
def ConfMap.insert (confMap : ConfMap) (key : Text) (value : Text × Text) : ConfMap :=
  if key ∈ confMap.map Prod.fst then
    confMap.map fun entry ↦ if entry.1 = key then (key, value) else entry
  else confMap ++ [(key, value)]

/-- The second component of `conf_map[key]`, empty for a missing key. -/
def listenKey (confMap : ConfMap) (key : Text) : Text :=
  match confMap.find? fun entry ↦ entry.1 = key with
  | some entry => entry.2.2
  | none => []

def PUB : Text := text "pub"

def SUB : Text := text "sub"

def portEntry (i : ℕ) : Text × Text × Text :=
  let appType := if i % 2 = 0 then PUB else SUB
  let key := text "app" ++ decimal i
  let value := (appType, text "[\"unixpipe/app" ++ decimal i ++ text ".pipe" ++ text "\"]")
  (key, value)

def createServerPortlist (numOfProcess : ℕ) : ConfMap :=
  (List.range numOfProcess).foldl
    (fun confMap i ↦ confMap.insert (portEntry i).1 (portEntry i).2) []

/-- `addr.pop_back(); addr.erase(addr.begin())`, which needs two characters. -/
def stripEnds (addr : Text) : Except Fault Text :=
  match addr.dropLast with
  | [] => .error .outOfRange
  | _ :: inner => .ok inner

/-- One iteration of the loop of `getAllTypeKeys`. -/
def appendAddr (filter s : Text) (entry : Text × Text × Text) : Except Fault Text :=
  if entry.2.1 = filter then
    if entry.2.2.isEmpty then .ok s
    else do
      let addr ← stripEnds entry.2.2
      .ok (s ++ addr ++ text ",")
  else .ok s

def getAllTypeKeys (confMap : ConfMap) (filter : Text) : Except Fault Text := do
  let str ← confMap.foldlM (appendAddr filter) (text "[")
  -- The last character is a comma only when some entry was appended.
  if str.isEmpty then .ok str else .ok (str.dropLast ++ text "]")

def getAllSubKeys (confMap : ConfMap) : Except Fault Text := getAllTypeKeys confMap SUB

def getAllPubKeys (confMap : ConfMap) : Except Fault Text := getAllTypeKeys confMap PUB

/-! ## Bracketed lists -/

def bracket (inner : Text) : Text := byte '[' :: (inner ++ [byte ']'])

def quote (endpoint : Text) : Text := byte '"' :: (endpoint ++ [byte '"'])

def joinComma (texts : List Text) : Text := [byte ','].intercalate texts

/-- The inner text of a bracketed address. -/
def inner (addr : Text) : Text := addr.dropLast.tail

def Bracketed (confMap : ConfMap) : Prop :=
  ∀ entry ∈ confMap, entry.2.2 = bracket (inner entry.2.2)

@[simp] theorem inner_bracket (t : Text) : inner (bracket t) = t := by
  rw [inner, bracket, ← List.cons_append, List.dropLast_concat, List.tail_cons]

theorem stripEnds_bracket (t : Text) : stripEnds (bracket t) = .ok t := by
  rw [stripEnds, bracket, ← List.cons_append, List.dropLast_concat]

/-- The inner texts of the entries of one role, in iteration order. -/
def innerTexts (confMap : ConfMap) (filter : Text) : List Text :=
  (confMap.filter fun entry ↦ entry.2.1 = filter).map fun entry ↦ inner entry.2.2

theorem innerTexts_eq_nil_iff (confMap : ConfMap) (filter : Text) :
    innerTexts confMap filter = [] ↔ ¬ ∃ entry ∈ confMap, entry.2.1 = filter := by
  rw [innerTexts, List.map_eq_nil_iff, List.filter_eq_nil_iff]
  simp only [decide_eq_true_eq, not_exists, not_and]

theorem foldlM_appendAddr {confMap : ConfMap} (h : Bracketed confMap) (filter s : Text) :
    confMap.foldlM (appendAddr filter) s =
      .ok (s ++ (innerTexts confMap filter).flatMap (· ++ [byte ','])) := by
  induction confMap generalizing s with
  | nil => simp [innerTexts, pure, Except.pure]
  | cons entry confMap ih =>
      have hrest : Bracketed confMap := fun e he ↦ h e (List.mem_cons_of_mem _ he)
      have hstrip : stripEnds entry.2.2 = .ok (inner entry.2.2) := by
        rw [h entry List.mem_cons_self, inner_bracket]
        exact stripEnds_bracket _
      have hne : entry.2.2.isEmpty = false := by
        rw [h entry List.mem_cons_self]
        rfl
      have hcomma : text "," = [byte ','] := rfl
      by_cases hfilter : entry.2.1 = filter
      · have hstep : appendAddr filter s entry = .ok (s ++ inner entry.2.2 ++ text ",") := by
          simp [appendAddr, hfilter, hne, hstrip, bind, Except.bind]
        rw [List.foldlM_cons, hstep]
        show confMap.foldlM _ _ = _
        rw [ih hrest]
        simp [innerTexts, hfilter, hcomma]
      · have hstep : appendAddr filter s entry = .ok s := by simp [appendAddr, hfilter]
        rw [List.foldlM_cons, hstep]
        show confMap.foldlM _ _ = _
        rw [ih hrest]
        simp [innerTexts, hfilter]

theorem flatMap_comma {texts : List Text} (h : texts ≠ []) :
    texts.flatMap (· ++ [byte ',']) = joinComma texts ++ [byte ','] := by
  induction texts with
  | nil => exact absurd rfl h
  | cons t texts ih =>
      cases texts with
      | nil => simp [joinComma]
      | cons u texts =>
          rw [List.flatMap_cons, ih (by simp), joinComma, joinComma,
            List.intercalate_cons_cons]
          simp

/-- The list is bracketed unless no entry matches; then even its opening
bracket is removed. -/
theorem getAllTypeKeys_eq {confMap : ConfMap} (h : Bracketed confMap) (filter : Text) :
    getAllTypeKeys confMap filter =
      if innerTexts confMap filter = [] then .ok (text "]")
      else .ok (bracket (joinComma (innerTexts confMap filter))) := by
  have hopen : text "[" = [byte '['] := rfl
  have hclose : text "]" = [byte ']'] := rfl
  rw [getAllTypeKeys, foldlM_appendAddr h]
  by_cases hnil : innerTexts confMap filter = []
  · simp [hnil, hopen, bind, Except.bind]
  · rw [if_neg hnil, flatMap_comma hnil]
    simp only [bind, Except.bind, hopen, hclose, List.singleton_append, List.isEmpty_cons]
    rw [← List.cons_append, List.dropLast_concat]
    rfl

theorem getAllTypeKeys_bracketed_iff {confMap : ConfMap} (h : Bracketed confMap)
    (filter : Text) :
    getAllTypeKeys confMap filter =
        .ok (bracket (joinComma (innerTexts confMap filter))) ↔
      ∃ entry ∈ confMap, entry.2.1 = filter := by
  have hnil := innerTexts_eq_nil_iff confMap filter
  rw [getAllTypeKeys_eq h]
  split
  · rename_i hempty
    have hne : text "]" ≠ bracket (joinComma []) := by decide
    simp [hempty, hne, hnil.mp hempty]
  · rename_i hempty
    exact iff_of_true rfl (not_not.mp fun hnone ↦ hempty (hnil.mpr hnone))

/-! ## The entries of the port list -/

theorem decimal_injective {i j : ℕ} (h : decimal i = decimal j) : i = j := by
  have hvalue := congrArg decimalValue h
  simpa using hvalue

theorem portEntry_fst (i : ℕ) : (portEntry i).1 = instanceName i := rfl

theorem instanceName_injective {i j : ℕ} (h : instanceName i = instanceName j) : i = j :=
  decimal_injective (List.append_cancel_left h)

theorem createServerPortlist_eq (n : ℕ) :
    createServerPortlist n = (List.range n).map portEntry := by
  induction n with
  | zero => rfl
  | succ n ih =>
      have hnew : (portEntry n).1 ∉ ((List.range n).map portEntry).map Prod.fst := by
        intro hmem
        obtain ⟨entry, hentry, heq⟩ := List.mem_map.mp hmem
        obtain ⟨i, hi, rfl⟩ := List.mem_map.mp hentry
        have hin : i = n := instanceName_injective heq
        simp [hin] at hi
      rw [createServerPortlist] at ih ⊢
      rw [List.range_succ, List.foldl_append, ih, List.foldl_cons, List.foldl_nil,
        ConfMap.insert, if_neg hnew, List.map_append]
      rfl

/-- The pipe of process `i`. -/
def endpoint (i : ℕ) : Text := text "unixpipe/app" ++ decimal i ++ text ".pipe"

theorem portEntry_address (i : ℕ) : (portEntry i).2.2 = bracket (quote (endpoint i)) := by
  have hopen : text "[\"unixpipe/app" = byte '[' :: byte '"' :: text "unixpipe/app" := by decide
  have hclose : text "\"]" = [byte '"', byte ']'] := by decide
  simp [portEntry, bracket, quote, endpoint, hopen, hclose]

theorem portEntry_type_pub (i : ℕ) :
    (portEntry i).2.1 = PUB ↔ processName i = text "./benchmarks/pub_test" := by
  have hrole : SUB ≠ PUB := by decide
  have hname : text "./benchmarks/sub_test" ≠ text "./benchmarks/pub_test" := by decide
  by_cases hi : i % 2 = 0
  · simp [portEntry, processName, hi]
  · simp [portEntry, processName, hi, hrole, hname]

theorem portEntry_type_sub (i : ℕ) :
    (portEntry i).2.1 = SUB ↔ processName i = text "./benchmarks/sub_test" := by
  have hrole : PUB ≠ SUB := by decide
  have hname : text "./benchmarks/pub_test" ≠ text "./benchmarks/sub_test" := by decide
  by_cases hi : i % 2 = 0
  · simp [portEntry, processName, hi, hrole, hname]
  · simp [portEntry, processName, hi]

/-! ## Lookup in any order -/

theorem endpoint_injective {i j : ℕ} (h : endpoint i = endpoint j) : i = j :=
  decimal_injective (List.append_cancel_left (List.append_cancel_right h))

theorem inner_quote (t : Text) : inner (quote t) = t := by
  rw [inner, quote, ← List.cons_append, List.dropLast_concat, List.tail_cons]

theorem bracketed_portlist (n : ℕ) : Bracketed (createServerPortlist n) := by
  intro entry hentry
  rw [createServerPortlist_eq] at hentry
  obtain ⟨i, -, rfl⟩ := List.mem_map.mp hentry
  rw [portEntry_address, inner_bracket]

/-- The endpoints of a program, in the order of the processes. -/
def endpointsOf (n : ℕ) (program : Text) : List Text :=
  ((List.range n).filter fun i ↦ processName i = program).map endpoint

theorem innerTexts_portlist (n : ℕ) {filter program : Text}
    (hrole : ∀ i, (portEntry i).2.1 = filter ↔ processName i = program) :
    innerTexts (createServerPortlist n) filter = (endpointsOf n program).map quote := by
  rw [createServerPortlist_eq, innerTexts, List.filter_map, List.map_map, endpointsOf,
    List.map_map]
  have hfilter : ((fun entry : Text × Text × Text ↦ decide (entry.2.1 = filter)) ∘ portEntry) =
      fun i ↦ decide (processName i = program) := by
    funext i
    simp [hrole i]
  have hinner : ((fun entry : Text × Text × Text ↦ inner entry.2.2) ∘ portEntry) =
      quote ∘ endpoint := by
    funext i
    simp [portEntry_address]
  rw [hfilter, hinner]

section Order

variable {confMap : ConfMap} {n : ℕ} (h : confMap.Perm (createServerPortlist n))

include h

theorem bracketed_of_perm : Bracketed confMap :=
  fun entry hentry ↦ bracketed_portlist n entry (h.mem_iff.mp hentry)

theorem listenKey_eq {i : ℕ} (hi : i < n) :
    listenKey confMap (instanceName i) = bracket (quote (endpoint i)) := by
  have hmem : portEntry i ∈ confMap := by
    rw [h.mem_iff, createServerPortlist_eq]
    exact List.mem_map_of_mem (List.mem_range.mpr hi)
  -- The keys are distinct, so the entry found is the entry of `i`.
  have hkey : ∀ a ∈ confMap, ∀ b ∈ confMap, a.1 = b.1 → a = b := by
    intro a ha b hb heq
    rw [h.mem_iff, createServerPortlist_eq] at ha hb
    obtain ⟨j, -, rfl⟩ := List.mem_map.mp ha
    obtain ⟨k, -, rfl⟩ := List.mem_map.mp hb
    rw [instanceName_injective heq]
  have hfind := NameOrder.find?_key hkey hmem
  rw [portEntry_fst] at hfind
  rw [listenKey, hfind]
  exact portEntry_address i

end Order

/-! ## The lists of the two roles -/

/-- `result` is the bracketed list of the endpoints, each once, on which the
processes below `n` launched as `program` listen. -/
def ListsEndpoints (confMap : ConfMap) (n : ℕ) (program : Text)
    (result : Except Fault Text) : Prop :=
  ∃ endpoints : List Text,
    result = .ok (bracket (joinComma (endpoints.map quote))) ∧ endpoints.Nodup ∧
      ∀ e, e ∈ endpoints ↔ ∃ i < n, processName i = program ∧
        listenKey confMap (instanceName i) = bracket (quote e)

theorem mem_endpointsOf {n : ℕ} {program e : Text} :
    e ∈ endpointsOf n program ↔ ∃ i < n, processName i = program ∧ endpoint i = e := by
  simp [endpointsOf, and_assoc]

theorem nodup_endpointsOf (n : ℕ) (program : Text) : (endpointsOf n program).Nodup :=
  (List.nodup_range.filter _).map fun _ _ ↦ endpoint_injective

theorem bracket_injective {s t : Text} (h : bracket s = bracket t) : s = t := by
  simpa using congrArg inner h

theorem quote_injective {s t : Text} (h : quote s = quote t) : s = t := by
  simpa [inner_quote] using congrArg inner h

theorem listsEndpoints_iff {confMap : ConfMap} {n : ℕ}
    (h : confMap.Perm (createServerPortlist n)) {filter program : Text}
    (hrole : ∀ i, (portEntry i).2.1 = filter ↔ processName i = program) :
    ListsEndpoints confMap n program (getAllTypeKeys confMap filter) ↔
      ∃ i < n, processName i = program := by
  have hperm : (innerTexts confMap filter).Perm ((endpointsOf n program).map quote) := by
    rw [← innerTexts_portlist n hrole]
    exact (h.filter _).map _
  rw [getAllTypeKeys_eq (bracketed_of_perm h)]
  constructor
  · rintro ⟨endpoints, hresult, -, hmem⟩
    by_contra hnone
    have hnil : endpoints = [] := by
      rw [List.eq_nil_iff_forall_not_mem]
      intro e he
      obtain ⟨i, hi, hprogram, -⟩ := (hmem e).mp he
      exact hnone ⟨i, hi, hprogram⟩
    have hinner : innerTexts confMap filter = [] := by
      rw [List.eq_nil_iff_forall_not_mem]
      intro t ht
      obtain ⟨e, he, -⟩ := List.mem_map.mp (hperm.mem_iff.mp ht)
      obtain ⟨i, hi, hprogram, -⟩ := mem_endpointsOf.mp he
      exact hnone ⟨i, hi, hprogram⟩
    have hne : text "]" ≠ bracket (joinComma []) := by decide
    simp [hinner, hnil, hne] at hresult
  · rintro ⟨i, hi, hprogram⟩
    have hsome : innerTexts confMap filter ≠ [] := by
      have hi' : endpoint i ∈ endpointsOf n program := mem_endpointsOf.mpr ⟨i, hi, hprogram, rfl⟩
      exact List.ne_nil_of_mem (hperm.mem_iff.mpr (List.mem_map_of_mem hi'))
    have hends : ((innerTexts confMap filter).map inner).Perm (endpointsOf n program) := by
      have hmap := hperm.map inner
      rw [List.map_map] at hmap
      simpa [Function.comp_def, inner_quote] using hmap
    have hquote : ((innerTexts confMap filter).map inner).map quote =
        innerTexts confMap filter := by
      rw [List.map_map]
      conv_rhs => rw [← List.map_id (innerTexts confMap filter)]
      apply List.map_congr_left
      intro t ht
      obtain ⟨e, -, rfl⟩ := List.mem_map.mp (hperm.mem_iff.mp ht)
      exact congrArg quote (inner_quote e)
    refine ⟨(innerTexts confMap filter).map inner, ?_, ?_, ?_⟩
    · rw [if_neg hsome, hquote]
    · exact hends.nodup_iff.mpr (nodup_endpointsOf n program)
    · intro e
      rw [hends.mem_iff, mem_endpointsOf]
      constructor
      · rintro ⟨j, hj, hname, rfl⟩
        exact ⟨j, hj, hname, listenKey_eq h hj⟩
      · rintro ⟨j, hj, hname, hkey⟩
        rw [listenKey_eq h hj] at hkey
        exact ⟨j, hj, hname, quote_injective (bracket_injective hkey)⟩

theorem exists_pub_test_iff (n : ℕ) :
    (∃ i < n, processName i = text "./benchmarks/pub_test") ↔ 1 ≤ n := by
  constructor
  · rintro ⟨i, hi, -⟩
    omega
  · intro hn
    exact ⟨0, hn, rfl⟩

theorem exists_sub_test_iff (n : ℕ) :
    (∃ i < n, processName i = text "./benchmarks/sub_test") ↔ 2 ≤ n := by
  constructor
  · rintro ⟨i, hi, hname⟩
    by_contra hlt
    have hzero : i = 0 := by omega
    rw [hzero] at hname
    exact absurd hname (by decide)
  · intro hn
    exact ⟨1, hn, rfl⟩

/-- The connect lists are right exactly when there is something to list, and so
is the list of every map of bracketed addresses. -/
theorem connect_lists_iff (n : ℕ) (confMap : ConfMap)
    (h : confMap.Perm (createServerPortlist n)) :
    (ListsEndpoints confMap n (text "./benchmarks/sub_test") (getAllSubKeys confMap) ↔ 2 ≤ n) ∧
      (ListsEndpoints confMap n (text "./benchmarks/pub_test") (getAllPubKeys confMap) ↔
        1 ≤ n) ∧
      ∀ (m : ConfMap) (filter : Text), Bracketed m →
        (getAllTypeKeys m filter = .ok (bracket (joinComma (innerTexts m filter))) ↔
          ∃ entry ∈ m, entry.2.1 = filter) := by
  refine ⟨?_, ?_, ?_⟩
  · exact (listsEndpoints_iff h portEntry_type_sub).trans (exists_sub_test_iff n)
  · exact (listsEndpoints_iff h portEntry_type_pub).trans (exists_pub_test_iff n)
  · intro m filter hm
    exact getAllTypeKeys_bracketed_iff hm filter

theorem connect_lists_iff_two :
    (ListsEndpoints (createServerPortlist 2) 2 (text "./benchmarks/sub_test")
        (getAllSubKeys (createServerPortlist 2)) ↔ 2 ≤ 2) ∧
      (ListsEndpoints (createServerPortlist 2) 2 (text "./benchmarks/pub_test")
        (getAllPubKeys (createServerPortlist 2)) ↔ 1 ≤ 2) ∧
      ∀ (m : ConfMap) (filter : Text), Bracketed m →
        (getAllTypeKeys m filter = .ok (bracket (joinComma (innerTexts m filter))) ↔
          ∃ entry ∈ m, entry.2.1 = filter) :=
  connect_lists_iff 2 (createServerPortlist 2) (List.Perm.refl _)

/-- Without a process the list loses its opening bracket. -/
theorem connect_list_empty :
    getAllSubKeys (createServerPortlist 0) = .ok (text "]") ∧
      getAllSubKeys (createServerPortlist 0) ≠ .ok (text "[]") := by
  have hne : text "]" ≠ text "[]" := by decide
  refine ⟨rfl, ?_⟩
  intro h
  exact hne (Except.ok.inj h)

end UpZenohExample
