import Xpty.OrderedMap

/- `OsString` on the two platforms. On Unix it is a list of bytes and on Windows a
   list of UTF-16 code units, which need not be valid Unicode on either. `OsStr`
   collects what `cmdbuilder.rs` uses of it: the order of a `BTreeMap`'s keys,
   `EnvEntry::map_key` and `to_str`.

   On Windows std stores the string as WTF-8 and compares the bytes. UTF-8 puts code
   points in numeric order, and so does WTF-8, so the order here is the one of the
   code points, a surrogate pair counting as one and a lone surrogate as itself. -/
namespace Xpty

abbrev UnixStr := List UInt8

abbrev WinStr := List UInt16

/-- An ASCII literal. -/
def bytes (s : String) : UnixStr := s.toList.map fun c => c.toNat.toUInt8

/-- An ASCII literal. -/
def wide (s : String) : WinStr := s.toList.map fun c => c.toNat.toUInt16

class OsStr (S : Type) where
  /-- `Ord for OsString`. -/
  cmp : S → S → Ordering
  transCmp : Std.TransCmp cmp
  lawfulEqCmp : Std.LawfulEqCmp cmp
  /-- `EnvEntry::map_key`. -/
  mapKey : S → S
  /-- `OsStr::to_str`: the string itself, if it is valid Unicode. -/
  toStr : S → Option S

attribute [instance] OsStr.transCmp OsStr.lawfulEqCmp

export OsStr (mapKey toStr)

/-- `BTreeMap<OsString, V>`. -/
abbrev BTreeMap (S V : Type) [OsStr S] := Std.ExtTreeMap S V OsStr.cmp

/-! Unix. -/

def isUtf8 (s : UnixStr) : Bool := (String.fromUTF8? ⟨s.toArray⟩).isSome

instance : OsStr UnixStr where
  cmp := compare
  transCmp := inferInstance
  lawfulEqCmp := inferInstance
  mapKey k := k
  toStr s := if isUtf8 s then some s else none

@[simp] theorem mapKey_unix (k : UnixStr) : mapKey k = k := rfl

/-! Windows. -/

def isHighSurrogate (c : UInt16) : Bool := 0xD800 ≤ c && c < 0xDC00

def isLowSurrogate (c : UInt16) : Bool := 0xDC00 ≤ c && c < 0xE000

/-- The code points of a wide string; a surrogate that is not part of a pair
stands for itself. -/
def codePoints : WinStr → List Nat
  | [] => []
  | [c] => [c.toNat]
  | c :: d :: s =>
    if isHighSurrogate c && isLowSurrogate d then
      (0x10000 + (c.toNat - 0xD800) * 0x400 + (d.toNat - 0xDC00)) :: codePoints s
    else c.toNat :: codePoints (d :: s)

/-- `OsStrExt::encode_wide`, from the code points. -/
def encodeWide : List Nat → WinStr
  | [] => []
  | n :: ns =>
    if n < 0x10000 then n.toUInt16 :: encodeWide ns
    else ((n - 0x10000) / 0x400 + 0xD800).toUInt16 ::
      ((n - 0x10000) % 0x400 + 0xDC00).toUInt16 :: encodeWide ns

/-- No surrogate is left outside a pair. -/
def isUnicode (s : WinStr) : Bool :=
  (codePoints s).all fun n => n < 0xD800 || 0xE000 ≤ n

/-- `str::to_lowercase` of a wide string that is valid Unicode. Its Unicode tables
are not part of the repository; what is proved holds of any function here. -/
class ToLowercase where
  toLowercase : WinStr → WinStr

/-- `to_lowercase` on the strings that hold ASCII only. -/
@[reducible] def asciiLowercase : ToLowercase where
  toLowercase s := s.map fun c => if 0x41 ≤ c && c ≤ 0x5A then c + 0x20 else c

theorem pair_split {c d : UInt16} (hc : isHighSurrogate c = true) (hd : isLowSurrogate d = true) :
    ∃ n, (c.toNat - 0xD800) * 0x400 + (d.toNat - 0xDC00) = n ∧
      n / 0x400 + 0xD800 = c.toNat ∧ n % 0x400 + 0xDC00 = d.toNat := by
  simp only [isHighSurrogate, isLowSurrogate, Bool.and_eq_true, decide_eq_true_eq,
    UInt16.le_iff_toNat_le, UInt16.lt_iff_toNat_lt, UInt16.reduceToNat] at hc hd
  exact ⟨_, rfl, by omega, by omega⟩

theorem encodeWide_codePoints (s : WinStr) : encodeWide (codePoints s) = s := by
  induction s using codePoints.induct with
  | case1 => rfl
  | case2 c => simp [codePoints, encodeWide, c.toNat_lt]
  | case3 c d s h ih =>
    -- a pair: its halves are the quotient and the remainder of the code point
    obtain ⟨hc, hd⟩ := Bool.and_eq_true_iff.mp h
    obtain ⟨n, hn, hq, hr⟩ := pair_split hc hd
    have hbig : ¬ 0x10000 + n < 0x10000 := by omega
    rw [codePoints, if_pos h, Nat.add_assoc, hn, encodeWide, if_neg hbig, Nat.add_sub_cancel_left,
      hq, hr, ih]
    simp
  | case4 c d s h ih =>
    rw [codePoints, if_neg h, encodeWide, if_pos c.toNat_lt, ih]
    simp

theorem codePoints_injective : Function.Injective codePoints :=
  Function.LeftInverse.injective encodeWide_codePoints

instance [ToLowercase] : OsStr WinStr where
  cmp := compareOn codePoints
  transCmp := inferInstance
  lawfulEqCmp := { eq_of_compare h := codePoints_injective (Std.LawfulEqCmp.eq_of_compare h) }
  mapKey k := if isUnicode k then ToLowercase.toLowercase k else k
  toStr s := if isUnicode s then some s else none

end Xpty
