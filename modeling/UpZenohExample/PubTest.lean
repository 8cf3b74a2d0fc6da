import UpZenohExample.SubTests

/-!
# The messages of `pub_test.cpp`

The text of a message is a header followed by padding up to `msg_size`.  The
payload is built from the text by pointer and length.
-/

namespace UpZenohExample

open ByteText

/-- `s << tm.tv_sec << "." << tm.tv_nsec << "|" << i << "|"`. -/
def header (tm : Timespec) (i : Int32) : Text :=
  decimalInt tm.tvSec.toInt ++ text "." ++ decimalInt tm.tvNsec.toInt ++ text "|" ++
    decimalInt i.toInt ++ text "|"

/-- `msg_size - len`, an `int` minus a `size_t`. -/
def padding (msgSize : Int32) (len : ℕ) : UInt64 :=
  msgSize.toInt64.toUInt64 - UInt64.ofNat len

def buildText (msgSize : Int32) (tm : Timespec) (i : Int32) (draws : ℕ → Draw) : Text :=
  let s := header tm i
  let len := s.length
  if 0 < padding msgSize len then s ++ generateRandomString (padding msgSize len) draws
  else s

/-- `UPayload(ptr, size, VALUE)`, where `mem` is the memory at `ptr`. -/
def UPayload.ofPointer (mem : Text) (size : UInt64) : Except Fault UPayload :=
  if size.toNat ≤ mem.length then .ok ⟨mem.take size.toNat⟩ else .error .overRead

/-- The payload of a text, which `c_str` ends with a NUL. -/
def buildPayload (msgSize : Int32) (data : Text) : Except Fault UPayload :=
  UPayload.ofPointer (data ++ [0]) msgSize.toInt64.toUInt64

def msgSize : Int32 := 200

/-! ## The text -/

theorem natAbs_toInt_lt (z : Int64) : z.toInt.natAbs < 10 ^ 19 := by
  have hlo := z.le_toInt
  have hhi := z.toInt_lt
  omega

theorem natAbs_toInt32_lt (z : Int32) : z.toInt.natAbs < 10 ^ 10 := by
  have hlo := z.le_toInt
  have hhi := z.toInt_lt
  omega

theorem length_header_le (tm : Timespec) (i : Int32) : (header tm i).length ≤ 54 := by
  have hsec := length_decimalInt_le (by omega) (natAbs_toInt_lt tm.tvSec)
  have hnsec := length_decimalInt_le (by omega) (natAbs_toInt_lt tm.tvNsec)
  have hi := length_decimalInt_le (by omega) (natAbs_toInt32_lt i)
  simp only [header, List.length_append, text_dot, text_bar, List.length_singleton]
  omega

theorem toNat_padding {len : ℕ} (h : len ≤ 200) : (padding msgSize len).toNat = 200 - len := by
  have hsize : msgSize.toInt64.toUInt64 = 200 := rfl
  have hlen : (UInt64.ofNat len).toNat = len := by
    rw [UInt64.toNat_ofNat_of_lt']
    exact Nat.lt_of_le_of_lt h (by decide)
  rw [padding, hsize, UInt64.toNat_sub_of_le _ _ (by rw [UInt64.le_iff_toNat_le, hlen]; exact h),
    hlen]
  rfl

def padOf (tm : Timespec) (i : Int32) (draws : ℕ → Draw) : Text :=
  generateRandomString (padding msgSize (header tm i).length) draws

theorem buildText_eq (tm : Timespec) (i : Int32) (draws : ℕ → Draw) :
    buildText msgSize tm i draws = header tm i ++ padOf tm i draws := by
  have hlen := length_header_le tm i
  have hpad := toNat_padding (show (header tm i).length ≤ 200 by omega)
  rw [buildText, if_pos, padOf]
  rw [UInt64.lt_iff_toNat_lt, hpad]
  exact Nat.sub_pos_of_lt (by omega)

theorem length_buildText (tm : Timespec) (i : Int32) (draws : ℕ → Draw) :
    (buildText msgSize tm i draws).length = 200 := by
  have hlen := length_header_le tm i
  rw [buildText_eq, List.length_append, padOf, length_generateRandomString,
    toNat_padding (by omega)]
  omega

theorem zero_notMem_buildText (tm : Timespec) (i : Int32) (draws : ℕ → Draw) :
    0 ∉ buildText msgSize tm i draws := by
  have hpad : 0 ∉ padOf tm i draws := notMem_generateRandomString rfl
  have hdec (z : ℤ) : 0 ∉ decimalInt z := notMem_decimalInt rfl (by decide)
  have hdot : 0 ∉ text "." := by decide
  have hbar : 0 ∉ text "|" := by decide
  rw [buildText_eq, header]
  simp only [List.mem_append, not_or]
  exact ⟨⟨⟨⟨⟨⟨hdec _, hdot⟩, hdec _⟩, hbar⟩, hdec _⟩, hbar⟩, hpad⟩

/-! ## The payload -/

/-- The payload of a message is the whole text and nothing else. -/
theorem buildPayload_buildText (tm : Timespec) (i : Int32) (draws : ℕ → Draw) :
    buildPayload msgSize (buildText msgSize tm i draws) =
      .ok ⟨buildText msgSize tm i draws⟩ := by
  have hsize : msgSize.toInt64.toUInt64.toNat = 200 := rfl
  have hlen := length_buildText tm i draws
  rw [buildPayload, UPayload.ofPointer, hsize, if_pos (by simp [hlen]), ← hlen,
    List.take_left]

end UpZenohExample
