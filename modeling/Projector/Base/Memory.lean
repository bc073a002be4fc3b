import Mathlib.Data.Nat.Digits.Defs
import Mathlib.Tactic.Lemma
import Mathlib.Tactic.Ring

/-!
# Memory and byte encodings

Memory seen through a C pointer, and the little-endian fixed-width encodings that `memcpy` of an
integer reads and writes. A pointer is the function from an offset to the byte found there; the size
of the block behind it is kept by the client of this file, so that a copy can be computed first and
its bounds be judged afterwards.

`Mem.read_memcpy` and `Mem.read_memcpy_of_disjoint` are the two halves of the frame rule of `memcpy`;
`intOfBytes_intBytes` is the round trip of an `int` through its four bytes.
-/

namespace Projector

/-- The bytes seen through a pointer, by offset. -/
abbrev Mem := Nat → UInt8

namespace Mem

/-- The `n` bytes from offset `off` on. -/
def read (m : Mem) (off n : Nat) : List UInt8 :=
  (List.range n).map fun i => m (off + i)

/-- Store one byte; an offset before the pointer touches no byte of the block. -/
def set (m : Mem) (i : Int) (b : UInt8) : Mem :=
  fun k => if (k : Int) = i then b else m k

/-- `memcpy(dst + off, src + srcOff, n)`. -/
def memcpy (dst : Mem) (off : Nat) (src : Mem) (srcOff n : Nat) : Mem :=
  fun k => if off ≤ k ∧ k < off + n then src (srcOff + (k - off)) else dst k

/-- Memory that starts with the given bytes and goes on as `m`. -/
def overlay (m : Mem) (bs : List UInt8) : Mem :=
  fun k => bs.getD k (m k)

/-- A read has the length asked for. -/
@[simp] lemma length_read (m : Mem) (off n : Nat) : (m.read off n).length = n := by
  simp [read]

/-- A read of no bytes. -/
@[simp] lemma read_zero (m : Mem) (off : Nat) : m.read off 0 = [] := rfl

/-- The bytes of a read. -/
@[simp] lemma getElem_read (m : Mem) (off n i : Nat) (h : i < (m.read off n).length) :
    (m.read off n)[i] = m (off + i) := by
  simp [read]

/-- Two reads agree when the bytes they cover agree. -/
lemma read_congr {m m' : Mem} {off off' n : Nat}
    (e : ∀ i < n, m (off + i) = m' (off' + i)) : m.read off n = m'.read off' n := by
  apply List.ext_getElem
  · simp
  · intro i h _
    simp only [length_read] at h
    simpa using e i h

/-- A read splits at any point. -/
lemma read_add (m : Mem) (off a b : Nat) :
    m.read off (a + b) = m.read off a ++ m.read (off + a) b := by
  simp [read, List.range_add, Nat.add_assoc]

/-- Reading two sequences one after the other. -/
lemma read_append {m : Mem} {off : Nat} {bs cs : List UInt8}
    (h : m.read off (bs ++ cs).length = bs ++ cs) :
    m.read off bs.length = bs ∧ m.read (off + bs.length) cs.length = cs := by
  rw [List.length_append, read_add] at h
  exact List.append_inj h (by simp)

/-- The end of a read. -/
lemma drop_read (m : Mem) (off n k : Nat) : (m.read off n).drop k = m.read (off + k) (n - k) := by
  apply List.ext_getElem
  · simp
  · intro i _ _
    simp [Nat.add_assoc]

/-- The beginning of a read. -/
lemma take_read (m : Mem) (off : Nat) {n k : Nat} (le : k ≤ n) :
    (m.read off n).take k = m.read off k := by
  apply List.ext_getElem
  · simp [le]
  · intro i _ _
    simp

/-- Memories with the same beginning read the same there. -/
lemma read_of_prefix {m m' : Mem} {len off n : Nat} (h : m'.read 0 len = m.read 0 len)
    (le : off + n ≤ len) : m'.read off n = m.read off n := by
  have tail : m'.read off (len - off) = m.read off (len - off) := by
    have dropped := congrArg (List.drop off) h
    rwa [drop_read, drop_read, Nat.zero_add] at dropped
  rw [← take_read m' off (n := len - off) (by omega), tail, take_read m off (by omega)]

/-- Reading back what was copied. -/
lemma read_memcpy (dst : Mem) (off : Nat) (src : Mem) (srcOff n : Nat) :
    (dst.memcpy off src srcOff n).read off n = src.read srcOff n := by
  apply read_congr
  intro i h
  have hi : off ≤ off + i ∧ off + i < off + n := ⟨by omega, by omega⟩
  simp only [memcpy, if_pos hi, Nat.add_sub_cancel_left]

/-- A copy leaves every byte outside its target as it was. -/
lemma read_memcpy_of_disjoint (dst : Mem) (off : Nat) (src : Mem) (srcOff n : Nat) {a k : Nat}
    (h : a + k ≤ off ∨ off + n ≤ a) : (dst.memcpy off src srcOff n).read a k = dst.read a k := by
  apply read_congr
  intro i hi
  have out : ¬ (off ≤ a + i ∧ a + i < off + n) := by omega
  simp only [memcpy, if_neg out]

/-- A copy behind what is there extends it. -/
lemma read_memcpy_append (dst : Mem) (off : Nat) (src : Mem) (srcOff n : Nat) :
    (dst.memcpy off src srcOff n).read 0 (off + n) = dst.read 0 off ++ src.read srcOff n := by
  rw [read_add, Nat.zero_add, read_memcpy, read_memcpy_of_disjoint _ _ _ _ _ (Or.inl (by omega))]

/-- A store behind the bytes read is not seen. -/
lemma read_set_of_le (m : Mem) {i : Int} (b : UInt8) {off n : Nat} (h : ((off + n : Nat) : Int) ≤ i) :
    (m.set i b).read off n = m.read off n := by
  apply read_congr
  intro k hk
  have out : ¬ ((off + k : Nat) : Int) = i := by omega
  simp only [set, if_neg out]

/-- In front, the overlaid bytes are seen. -/
lemma overlay_of_lt {m : Mem} {bs : List UInt8} {k : Nat} (h : k < bs.length) :
    m.overlay bs k = bs[k] := by
  simp [overlay, List.getD, List.getElem?_eq_getElem h]

/-- Overlaid bytes are read back. -/
@[simp] lemma read_overlay (m : Mem) (bs : List UInt8) : (m.overlay bs).read 0 bs.length = bs := by
  apply List.ext_getElem
  · simp
  · intro i _ h
    simp [overlay_of_lt h]

/-- A copy to the start of a block overlays what is copied. -/
lemma memcpy_eq_overlay (dst : Mem) {src : Mem} {off : Nat} {bs : List UInt8}
    (h : src.read off bs.length = bs) : dst.memcpy 0 src off bs.length = dst.overlay bs := by
  funext k
  by_cases lt : k < bs.length
  · have byte : (src.read off bs.length)[k]? = bs[k]? := congrArg (fun l => l[k]?) h
    simp only [read, List.getElem?_map, List.getElem?_range lt, Option.map_some,
      List.getElem?_eq_getElem lt, Option.some.injEq] at byte
    rw [overlay_of_lt lt, ← byte, memcpy, if_pos ⟨Nat.zero_le k, by omega⟩, Nat.sub_zero]
  · have outside : ¬ (0 ≤ k ∧ k < 0 + bs.length) := by omega
    rw [memcpy, if_neg outside, overlay, List.getD, List.getElem?_eq_none (Nat.le_of_not_lt lt)]
    rfl

/-- A copy depends on the copied bytes only. -/
lemma memcpy_congr (dst : Mem) (off : Nat) {src src' : Mem} {srcOff srcOff' n : Nat}
    (h : src'.read srcOff' n = src.read srcOff n) :
    dst.memcpy off src' srcOff' n = dst.memcpy off src srcOff n := by
  funext k
  by_cases inside : off ≤ k ∧ k < off + n
  · have lt : k - off < n := by omega
    have byte := congrArg (fun l => l[k - off]?) h
    simp only [read, List.getElem?_map, List.getElem?_range lt, Option.map_some,
      Option.some.injEq] at byte
    rw [memcpy, memcpy, if_pos inside, if_pos inside, byte]
  · rw [memcpy, memcpy, if_neg inside, if_neg inside]

/-- A copy of no bytes changes nothing. -/
@[simp] lemma memcpy_zero (dst : Mem) (off : Nat) (src : Mem) (srcOff : Nat) :
    dst.memcpy off src srcOff 0 = dst := by
  funext k
  have outside : ¬ (off ≤ k ∧ k < off + 0) := by omega
  rw [memcpy, if_neg outside]

/-- Two copies, the second one behind the first, are one. -/
lemma memcpy_append (dst : Mem) (off : Nat) (src : Mem) (srcOff a b : Nat) :
    (dst.memcpy off src srcOff a).memcpy (off + a) src (srcOff + a) b =
      dst.memcpy off src srcOff (a + b) := by
  funext k
  simp only [memcpy]
  by_cases second : off + a ≤ k ∧ k < off + a + b
  · have same : srcOff + a + (k - (off + a)) = srcOff + (k - off) := by omega
    rw [if_pos second, if_pos ⟨by omega, by omega⟩, same]
  · rw [if_neg second]
    by_cases first : off ≤ k ∧ k < off + a
    · rw [if_pos first, if_pos ⟨by omega, by omega⟩]
    · rw [if_neg first, if_neg (by omega)]

end Mem

/-- The number with the given little-endian bytes. -/
def leNat (bs : List UInt8) : Nat :=
  Nat.ofDigits 256 (bs.map UInt8.toNat)

/-- The low `w` bytes of a number, least significant first. -/
def leBytes : Nat → Nat → List UInt8
  | 0, _ => []
  | w + 1, n => UInt8.ofNat n :: leBytes w (n / 256)

/-- The bytes of a word. -/
@[simp] lemma length_leBytes (w n : Nat) : (leBytes w n).length = w := by
  induction w generalizing n with
  | zero => rfl
  | succ w ih => simp [leBytes, ih]

/-- Encoding in `w` bytes keeps a number modulo `256 ^ w`. -/
lemma leNat_leBytes (w n : Nat) : leNat (leBytes w n) = n % 256 ^ w := by
  induction w generalizing n with
  | zero => simp [leNat, leBytes, Nat.mod_one]
  | succ w ih =>
    have low : (UInt8.ofNat n).toNat = n % 256 := by simp
    have high : leNat (leBytes w (n / 256)) = n / 256 % 256 ^ w := ih (n / 256)
    unfold leNat at high ⊢
    rw [leBytes, List.map_cons, Nat.ofDigits_cons, low, high, pow_succ', Nat.mod_mul]

/-- Signed 32-bit wrap-around. -/
def wrap32 (z : Int) : Int := (BitVec.ofInt 32 z).toInt

/-- Wrapping around is the balanced remainder. -/
lemma wrap32_eq_bmod (z : Int) : wrap32 z = z.bmod 4294967296 := by
  rw [wrap32, BitVec.toInt_ofInt]

/-- The `int` with the given little-endian bytes. -/
def intOfBytes (bs : List UInt8) : Int := wrap32 (leNat bs)

/-- The number determines its bytes. -/
lemma leNat_inj {bs cs : List UInt8} (len : bs.length = cs.length) (e : leNat bs = leNat cs) :
    bs = cs := by
  have small (ds : List UInt8) : ∀ d ∈ ds.map UInt8.toNat, d < 256 := by
    intro d mem
    obtain ⟨b, _, rfl⟩ := List.mem_map.mp mem
    exact b.toNat_lt
  have digits : bs.map UInt8.toNat = cs.map UInt8.toNat :=
    Nat.ofDigits_inj_of_len_eq (by decide) (by simpa using len) (small bs) (small cs) e
  apply List.ext_getElem len
  intro i hi hi'
  have byte := congrArg (fun l => l[i]?) digits
  simp only [List.getElem?_map, List.getElem?_eq_getElem hi, List.getElem?_eq_getElem hi',
    Option.map_some, Option.some.injEq] at byte
  exact UInt8.toNat_inj.mp byte

/-- The `int` determines its four bytes. -/
lemma intOfBytes_inj {bs cs : List UInt8} (hb : bs.length = 4) (hc : cs.length = 4)
    (e : intOfBytes bs = intOfBytes cs) : bs = cs := by
  have small (ds : List UInt8) (hd : ds.length = 4) : leNat ds < 4294967296 := by
    have lt := Nat.ofDigits_lt_base_pow_length (b := 256) (l := ds.map UInt8.toNat) (by decide) (by
      intro d mem
      obtain ⟨b, _, rfl⟩ := List.mem_map.mp mem
      exact b.toNat_lt)
    rwa [List.length_map, hd] at lt
  apply leNat_inj (hb.trans hc.symm)
  have lb := small bs hb
  have lc := small cs hc
  rw [intOfBytes, intOfBytes, wrap32_eq_bmod, wrap32_eq_bmod, Int.bmod_def, Int.bmod_def] at e
  omega

/-- The four bytes of an `int`. -/
def intBytes (z : Int) : List UInt8 := leBytes 4 (z % 4294967296).toNat

/-- An `int` has four bytes. -/
@[simp] lemma length_intBytes (z : Int) : (intBytes z).length = 4 := by
  simp [intBytes]

/-- Four bytes keep an integer up to wrapping. -/
lemma intOfBytes_intBytes (z : Int) : intOfBytes (intBytes z) = wrap32 z := by
  have nonneg : 0 ≤ z % 4294967296 := Int.emod_nonneg _ (by decide)
  have low : (z % 4294967296).toNat % 256 ^ 4 = (z % 4294967296).toNat := by omega
  rw [intOfBytes, intBytes, leNat_leBytes, low, Int.toNat_of_nonneg nonneg, wrap32_eq_bmod, wrap32_eq_bmod]
  exact Int.emod_bmod z 4294967296

/-- A value of the C type `int`. -/
def InInt (z : Int) : Prop := -2 ^ 31 ≤ z ∧ z < 2 ^ 31

/-- What is left by wrapping is an `int`. -/
lemma wrap32_inInt (z : Int) : InInt (wrap32 z) := ⟨BitVec.le_toInt _, BitVec.toInt_lt⟩

/-- What four bytes hold is an `int`. -/
lemma intOfBytes_inInt (bs : List UInt8) : InInt (intOfBytes bs) := wrap32_inInt _

/-- A value in range does not wrap. -/
lemma wrap32_of_inInt {z : Int} (h : InInt z) : wrap32 z = z := by
  obtain ⟨lo, hi⟩ := h
  rw [wrap32_eq_bmod]
  exact Int.bmod_eq_of_le (by omega) (by omega)

/-- One more than an `int`, unless that wraps to a negative number. -/
lemma wrap32_succ {z : Int} (h : InInt z) (nonneg : 0 ≤ wrap32 (z + 1)) : wrap32 (z + 1) = z + 1 := by
  obtain ⟨lo, hi⟩ := h
  by_cases largest : z + 1 = 2 ^ 31
  · rw [largest] at nonneg
    exact absurd nonneg (by decide)
  · exact wrap32_of_inInt ⟨by omega, by omega⟩

/-- An `int` survives the trip through its four bytes. -/
lemma intOfBytes_intBytes_of_inInt {z : Int} (h : InInt z) : intOfBytes (intBytes z) = z := by
  rw [intOfBytes_intBytes, wrap32_of_inInt h]

end Projector
