import Mathlib.Tactic.IntervalCases
import Projector.Base.Memory
import Projector.Server.Main

/-!
# The last number of an address

`getAddress` takes the user id from the text of the peer's address: it copies four characters from offset
11 on and applies `atoi` to the copy. `inetNtop` is the text as the library writes it, a terminator and
whatever the array held behind it. `getAddress_iff` says for which addresses the result is the last octet
and nothing outside the text is read; `userID_of_eight` follows the result into the object of the client.
-/

namespace Projector

/-! ## The functions of the C library -/

/-- `strncpy(dst, src + off, n)`: the `n` characters written, and the indices of `src` that are read. -/
def strncpy (src : Mem) (off : Nat) : Nat → List UInt8 × List Nat
  | 0 => ([], [])
  | n + 1 =>
    if src off = 0 then (List.replicate (n + 1) 0, [off])
    else
      let r := strncpy src (off + 1) n
      (src off :: r.1, off :: r.2)

/-- `isspace` -/
def isSpace (b : UInt8) : Bool := b = 32 || (9 ≤ b.toNat && b.toNat ≤ 13)

/-- `isdigit` -/
def isDigit (b : UInt8) : Bool := 48 ≤ b.toNat && b.toNat ≤ 57

/-- The number at the start of a text, continued from `acc`, and how many characters were looked at. -/
def number : List UInt8 → Nat → Nat × Nat
  | [], acc => (acc, 0)
  | b :: bs, acc =>
    if isDigit b then
      let r := number bs (10 * acc + (b.toNat - 48))
      (r.1, r.2 + 1)
    else (acc, 1)

/-- What `strtol` makes of a number that is no `long`. -/
def clampLong (z : Int) : Int := max (-2 ^ 31) (min z (2 ^ 31 - 1))

/-- `atoi`, and how many characters it looks at. -/
def atoi : List UInt8 → Int × Nat
  | [] => (0, 0)
  | b :: bs =>
    if isSpace b then
      let r := atoi bs
      (r.1, r.2 + 1)
    else if b = 43 ∨ b = 45 then
      let r := number bs 0
      (clampLong (if b = 45 then -r.1 else r.1), r.2 + 1)
    else
      let r := number (b :: bs) 0
      (clampLong r.1, r.2)

/-! ## `getAddress` -/

/-- A call of `getAddress`: the result, the indices of `addressName` that were read, and how many
characters `atoi` looked at in `last`. -/
structure GetAddress where
  lastNum : Int
  read : List Nat
  examined : Nat

/-- `getAddress`: `addressName` is the array after `inet_ntop`, if that did not fail, and `behind` what
follows `char last[4]` in memory. -/
def getAddress (addressName : Option Mem) (behind : List UInt8) : GetAddress :=
  match addressName with
  | some addressName =>
    let last := strncpy addressName 11 4
    let lastNum := atoi (last.1 ++ behind)
    ⟨lastNum.1, last.2, lastNum.2⟩
  | none => ⟨0, [], 0⟩

/-! ## Addresses as text -/

/-- The decimal digits of an octet. -/
def octetDigits (n : Nat) : List Nat :=
  if n < 10 then [n] else if n < 100 then [n / 10, n % 10] else [n / 100, n / 10 % 10, n % 10]

/-- A digit as a character. -/
def digitChar (k : Nat) : UInt8 := UInt8.ofNat (48 + k)

/-- An octet as text. -/
def octet (b : UInt8) : List UInt8 := (octetDigits b.toNat).map digitChar

/-- The text up to the last octet. -/
def network (a b c : UInt8) : List UInt8 := octet a ++ 46 :: octet b ++ 46 :: octet c ++ [46]

/-- The address in dotted decimal. -/
def dotted (a b c d : UInt8) : List UInt8 := network a b c ++ octet d

/-- `addressName` after `inet_ntop`. -/
def inetNtop (a b c d : UInt8) (junk : Mem) : Mem := junk.overlay (dotted a b c d ++ [0])

/-- The call has read nothing but the text and its terminator, and returned the last octet. -/
structure ReturnsLast (a b c d : UInt8) (r : GetAddress) : Prop where
  inText : ∀ i ∈ r.read, i ≤ (dotted a b c d).length
  inLast : r.examined ≤ 4
  lastNum : r.lastNum = d.toNat

/-- How many digits the first three octets have. -/
def digitCount (a b c : UInt8) : Nat :=
  (octetDigits a.toNat).length + (octetDigits b.toNat).length + (octetDigits c.toNat).length

variable {a b c d : UInt8} {junk : Mem} {behind : List UInt8} {src : Mem} {off n : Nat}

/-! ### Digits -/

/-- The character of a digit. -/
lemma toNat_digitChar {k : Nat} (h : k < 10) : (digitChar k).toNat = 48 + k := by
  rw [digitChar, UInt8.toNat_ofNat']
  omega

/-- One, two or three digits. -/
lemma octetDigits_cases (n : Nat) :
    (n < 10 ∧ octetDigits n = [n]) ∨ (10 ≤ n ∧ n < 100 ∧ octetDigits n = [n / 10, n % 10]) ∨
      (100 ≤ n ∧ octetDigits n = [n / 100, n / 10 % 10, n % 10]) := by
  by_cases one : n < 10
  · exact .inl ⟨one, if_pos one⟩
  · by_cases two : n < 100
    · exact .inr (.inl ⟨by omega, two, by rw [octetDigits, if_neg one, if_pos two]⟩)
    · exact .inr (.inr ⟨by omega, by rw [octetDigits, if_neg one, if_neg two]⟩)

/-- The digits of an octet are digits. -/
lemma octetDigits_lt {n k : Nat} (h : n < 256) (mem : k ∈ octetDigits n) : k < 10 := by
  rcases octetDigits_cases n with ⟨_, e⟩ | ⟨_, _, e⟩ | ⟨_, e⟩ <;> rw [e] at mem <;> simp at mem <;> omega

/-- An octet has a character for each digit. -/
lemma length_octet (b : UInt8) : (octet b).length = (octetDigits b.toNat).length := List.length_map ..

/-- The number that a text of digits starts with. -/
lemma number_digits {ks : List Nat} (small : ∀ k ∈ ks, k < 10) (acc : Nat) (rest : List UInt8) :
    number (ks.map digitChar ++ 0 :: rest) acc =
      (ks.foldl (fun acc k => 10 * acc + k) acc, ks.length + 1) := by
  induction ks generalizing acc with
  | nil => simp [number, isDigit]
  | cons k ks ih =>
    have digit := toNat_digitChar (small k List.mem_cons_self)
    have lt := small k List.mem_cons_self
    have is : isDigit (digitChar k) = true := by
      rw [isDigit, digit]
      simp
      omega
    rw [List.map_cons, List.cons_append, number, if_pos is,
      ih (fun j mem => small j (List.mem_cons_of_mem k mem)), digit]
    simp

/-- The last digits of an octet are the octet modulo a power of ten. -/
lemma foldl_drop_octetDigits {n : Nat} (h : n < 256) {q : Nat} (hq : q ≤ (octetDigits n).length) :
    ((octetDigits n).drop q).foldl (fun acc k => 10 * acc + k) 0 =
      n % 10 ^ ((octetDigits n).length - q) := by
  rcases octetDigits_cases n with ⟨_, e⟩ | ⟨_, _, e⟩ | ⟨_, e⟩
  · rw [e] at hq ⊢
    simp only [List.length_singleton] at hq
    interval_cases q <;> simp <;> omega
  · rw [e] at hq ⊢
    simp only [List.length_cons, List.length_nil] at hq
    interval_cases q <;> simp <;> omega
  · rw [e] at hq ⊢
    simp only [List.length_cons, List.length_nil] at hq
    interval_cases q <;> simp <;> omega

/-- `atoi` of a terminated text of digits. -/
lemma atoi_digits {ks : List Nat} (small : ∀ k ∈ ks, k < 10)
    (fits : ks.foldl (fun acc k => 10 * acc + k) 0 < 2 ^ 31) (rest : List UInt8) :
    atoi (ks.map digitChar ++ 0 :: rest) =
      (((ks.foldl (fun acc k => 10 * acc + k) 0 : Nat) : Int), ks.length + 1) := by
  have clamp : clampLong ((ks.foldl (fun acc k => 10 * acc + k) 0 : Nat) : Int) =
      ((ks.foldl (fun acc k => 10 * acc + k) 0 : Nat) : Int) := by
    unfold clampLong
    omega
  have all := number_digits small 0 rest
  cases ks with
  | nil => simp [atoi, isSpace, number, isDigit, clampLong]
  | cons k ks =>
    have digit := toNat_digitChar (small k List.mem_cons_self)
    have lt := small k List.mem_cons_self
    have noSpace : isSpace (digitChar k) = false := by
      have ne : digitChar k ≠ 32 := fun e => by rw [e] at digit; simp at digit; omega
      simp [isSpace, ne, digit]
      omega
    have noSign : ¬ (digitChar k = 43 ∨ digitChar k = 45) := by
      rintro (e | e)
      · rw [e] at digit
        simp at digit
        omega
      · rw [e] at digit
        simp at digit
        omega
    rw [List.map_cons, List.cons_append] at all ⊢
    rw [atoi, noSpace, if_neg (by decide), if_neg noSign, all]
    simp only [clamp]

/-- A digit is not the terminator. -/
lemma digitChar_ne_zero {k : Nat} (h : k < 10) : digitChar k ≠ 0 := by
  intro e
  have digit := toNat_digitChar h
  rw [e] at digit
  simp at digit
  omega

/-! ### The copy -/

/-- The copy starts by reading the first character. -/
lemma mem_read_strncpy : off ∈ (strncpy src off (n + 1)).2 := by
  rw [strncpy]
  split <;> simp

/-- It does not read past a terminator. -/
lemma read_strncpy_le {k i : Nat} (stop : src (off + k) = 0) (mem : i ∈ (strncpy src off n).2) :
    i ≤ off + k := by
  induction n generalizing off k with
  | zero => simp [strncpy] at mem
  | succ n ih =>
    rw [strncpy] at mem
    split at mem
    · rw [List.mem_singleton] at mem
      omega
    · rename_i more
      rcases List.mem_cons.mp mem with rfl | mem
      · omega
      · cases k with
        | zero => exact absurd stop more
        | succ k =>
          have le := ih (k := k) (by rwa [Nat.add_right_comm, Nat.add_assoc]) mem
          omega

/-- A text that is shorter is copied and filled up with terminators. -/
lemma strncpy_eq {bs : List UInt8} (text : src.read off (bs.length + 1) = bs ++ [0])
    (full : ∀ b ∈ bs, b ≠ 0) (lt : bs.length < n) :
    (strncpy src off n).1 = bs ++ List.replicate (n - bs.length) 0 := by
  induction bs generalizing off n with
  | nil =>
    obtain ⟨n, rfl⟩ := Nat.exists_eq_succ_of_ne_zero (by omega : n ≠ 0)
    have stop : src off = 0 := by simpa [Mem.read] using text
    simp [strncpy, stop]
  | cons b bs ih =>
    obtain ⟨n, rfl⟩ := Nat.exists_eq_succ_of_ne_zero (by omega : n ≠ 0)
    have split : src.read off (1 + (bs.length + 1)) = b :: (bs ++ [0]) := by
      rwa [Nat.add_comm 1]
    rw [Mem.read_add] at split
    obtain ⟨first, rest⟩ := List.cons.inj split
    have first : src off = b := first
    have more : src off ≠ 0 := first ▸ full b List.mem_cons_self
    simp only [List.length_cons] at lt
    have tail := ih rest (fun c mem => full c (List.mem_cons_of_mem b mem)) (n := n) (by omega)
    rw [strncpy, if_neg more, List.cons_append, List.length_cons, Nat.succ_eq_add_one,
      Nat.add_sub_add_right, ← tail, ← first]

/-! ### The text in memory -/

/-- The first three octets and the dots behind them. -/
lemma length_network (a b c : UInt8) : (network a b c).length = digitCount a b c + 3 := by
  simp only [network, digitCount, List.length_append, List.length_cons, List.length_nil, length_octet]
  omega

/-- The length of an address by its digits. -/
lemma length_dotted (a b c d : UInt8) :
    (dotted a b c d).length = digitCount a b c + 3 + (octetDigits d.toNat).length := by
  rw [dotted, List.length_append, length_network, length_octet]

/-- An octet has one, two or three digits. -/
lemma length_octetDigits (n : Nat) : 1 ≤ (octetDigits n).length ∧ (octetDigits n).length ≤ 3 := by
  rcases octetDigits_cases n with ⟨_, e⟩ | ⟨_, _, e⟩ | ⟨_, e⟩ <;> simp [e]

/-- The rest of the text from an index on, with the terminator. -/
lemma read_inetNtop (junk : Mem) {k : Nat} (le : k ≤ (dotted a b c d).length) :
    (inetNtop a b c d junk).read k ((dotted a b c d).length - k + 1) = (dotted a b c d).drop k ++ [0] := by
  have all := Mem.read_overlay junk (dotted a b c d ++ [0])
  have rest := congrArg (List.drop k) all
  rw [Mem.drop_read, Nat.zero_add, List.drop_append_of_le_length le, List.length_append,
    List.length_singleton] at rest
  rwa [Nat.sub_add_comm le] at rest

/-- The terminator is behind the text. -/
lemma inetNtop_length : inetNtop a b c d junk (dotted a b c d).length = 0 := by
  have stop := read_inetNtop junk (le_refl (dotted a b c d).length)
  simpa [Mem.read] using stop

/-! ### Where offset 11 is -/

/-- Behind the text and its terminator: a byte that is not part of them is read. -/
lemma getAddress_behind (short : (dotted a b c d).length < 11) :
    ¬ ReturnsLast a b c d (getAddress (some (inetNtop a b c d junk)) behind) := by
  intro returns
  have le := returns.inText 11 mem_read_strncpy
  omega

/-- Offset 11 is inside the text, so the copy is too: it depends on the number in the copy alone whether
that is the last octet. -/
lemma returnsLast_iff {value : Int} {examined : Nat} (long : 11 ≤ (dotted a b c d).length)
    (result : atoi ((strncpy (inetNtop a b c d junk) 11 4).1 ++ behind) = (value, examined))
    (few : examined ≤ 4) :
    ReturnsLast a b c d (getAddress (some (inetNtop a b c d junk)) behind) ↔ value = d.toNat := by
  constructor
  · intro returns
    have same := returns.lastNum
    simpa only [getAddress, result] using same
  · intro same
    refine ⟨fun i mem => ?_, ?_, ?_⟩
    · have le := read_strncpy_le (k := (dotted a b c d).length - 11) (by
        rw [Nat.add_sub_cancel' long]
        exact inetNtop_length) mem
      omega
    · simpa only [getAddress, result] using few
    · simpa only [getAddress, result] using same

/-- Within the last octet: the result is made of its last digits. -/
lemma getAddress_inside {q : Nat} (before : digitCount a b c + q = 8)
    (hq : q ≤ (octetDigits d.toNat).length) :
    ReturnsLast a b c d (getAddress (some (inetNtop a b c d junk)) behind) ↔
      d.toNat % 10 ^ ((octetDigits d.toNat).length - q) = d.toNat := by
  have lengths := length_octetDigits d.toNat
  have total := length_dotted a b c d
  have value := foldl_drop_octetDigits d.toNat_lt hq
  have small : ∀ k ∈ (octetDigits d.toNat).drop q, k < 10 := fun k mem =>
    octetDigits_lt d.toNat_lt (List.mem_of_mem_drop mem)
  have digits : (dotted a b c d).drop 11 = ((octetDigits d.toNat).drop q).map digitChar := by
    rw [dotted, List.drop_append, length_network, List.drop_of_length_le (by rw [length_network]; omega),
      List.nil_append, octet, ← List.map_drop]
    congr 2
    omega
  have length : (((octetDigits d.toNat).drop q).map digitChar).length = (dotted a b c d).length - 11 := by
    rw [List.length_map, List.length_drop]
    omega
  have text := read_inetNtop junk (by omega : 11 ≤ (dotted a b c d).length)
  rw [digits, ← length] at text
  have full : ∀ ch ∈ ((octetDigits d.toNat).drop q).map digitChar, ch ≠ 0 := by
    intro ch mem
    obtain ⟨k, hk, rfl⟩ := List.mem_map.mp mem
    exact digitChar_ne_zero (small k hk)
  -- The copy has room for the digits and for at least one terminator.
  have copied := strncpy_eq text full (n := 4) (by rw [length]; omega)
  obtain ⟨fill, room⟩ := Nat.exists_eq_add_of_lt (by rw [length]; omega :
    (((octetDigits d.toNat).drop q).map digitChar).length < 4)
  have number := atoi_digits small (by
      rw [value]
      exact lt_of_le_of_lt (Nat.mod_le _ _) (lt_trans d.toNat_lt (by decide)))
    (List.replicate fill 0 ++ behind)
  have result : atoi ((strncpy (inetNtop a b c d junk) 11 4).1 ++ behind) =
      (((d.toNat % 10 ^ ((octetDigits d.toNat).length - q) : Nat) : Int),
        (dotted a b c d).length - 11 + 1) := by
    rw [copied, (by omega : 4 - (((octetDigits d.toNat).drop q).map digitChar).length = fill + 1),
      List.replicate_succ, List.append_assoc, List.cons_append, number, value, ← length, List.length_map]
  rw [returnsLast_iff (by omega) result (by omega), Nat.cast_inj]

/-- At the dot before the last octet: the result is 0. -/
lemma getAddress_dot (before : digitCount a b c = 9) :
    ReturnsLast a b c d (getAddress (some (inetNtop a b c d junk)) behind) ↔ d.toNat = 0 := by
  have lengths := length_octetDigits d.toNat
  have total := length_dotted a b c d
  have text := read_inetNtop junk (by omega : 11 ≤ (dotted a b c d).length)
  have dot : (dotted a b c d).drop 11 = 46 :: octet d := by
    have front : (octet a ++ 46 :: octet b ++ 46 :: octet c).length = 11 := by
      have network := length_network a b c
      rw [Projector.network, List.length_append, List.length_singleton] at network
      omega
    rw [dotted, network, List.append_assoc, List.drop_left' front, List.singleton_append]
  have first : inetNtop a b c d junk 11 = 46 := by
    have byte := congrArg (fun bs => bs[0]?) text
    simp only [dot, Mem.read, List.getElem?_map] at byte
    rw [List.getElem?_range (by omega)] at byte
    simpa using byte
  have result : atoi ((strncpy (inetNtop a b c d junk) 11 4).1 ++ behind) = (0, 1) := by
    rw [strncpy, if_neg (by rw [first]; decide), first]
    rfl
  rw [returnsLast_iff (by omega) result (by decide)]
  omega

/-- `getAddress` returns the last octet, and reads nothing else than the text and its terminator, if and
only if the first three octets have eight digits together, or the last octet is 0 and they have seven or
nine. -/
theorem getAddress_iff (a b c d : UInt8) (junk : Mem) (behind : List UInt8) :
    ReturnsLast a b c d (getAddress (some (inetNtop a b c d junk)) behind) ↔
      digitCount a b c = 8 ∨ (d = 0 ∧ (digitCount a b c = 7 ∨ digitCount a b c = 9)) := by
  have ha := length_octetDigits a.toNat
  have hb := length_octetDigits b.toNat
  have hc := length_octetDigits c.toNat
  have total := length_dotted a b c d
  have zero : d = 0 ↔ d.toNat = 0 := by
    rw [← UInt8.toNat_inj]
    rfl
  have count : digitCount a b c ≤ 9 := by
    unfold digitCount
    omega
  by_cases nine : digitCount a b c = 9
  · rw [getAddress_dot nine, zero]
    omega
  · by_cases inside : 8 - digitCount a b c ≤ (octetDigits d.toNat).length
    · rw [getAddress_inside (q := 8 - digitCount a b c) (by omega) inside, zero]
      have widths : digitCount a b c = 8 ∨ digitCount a b c = 7 ∨ digitCount a b c = 6 ∨
          digitCount a b c = 5 := by
        have lengths := length_octetDigits d.toNat
        omega
      have bound := d.toNat_lt
      -- Less than all the digits of a number make a smaller number, unless it is 0.
      rcases octetDigits_cases d.toNat with ⟨_, e⟩ | ⟨_, _, e⟩ | ⟨_, e⟩
      · rcases widths with h | h | h | h <;> simp [h, e] at inside ⊢ <;> omega
      · rcases widths with h | h | h | h <;> simp [h, e] at inside ⊢ <;> omega
      · rcases widths with h | h | h | h <;> simp [h, e] at inside ⊢ <;> omega
    · have short : (dotted a b c d).length < 11 := by omega
      have lengths := length_octetDigits d.toNat
      refine iff_of_false (getAddress_behind short) ?_
      omega

/-- A peer at 192.168.100.7 is given the id 0. -/
theorem not_returnsLast :
    (getAddress (some (inetNtop 192 168 100 7 fun _ => 0)) []).lastNum = 0 ∧
    ¬ ReturnsLast 192 168 100 7 (getAddress (some (inetNtop 192 168 100 7 fun _ => 0)) []) := by
  have zero : (getAddress (some (inetNtop 192 168 100 7 fun _ => 0)) []).lastNum = 0 := by decide +kernel
  refine ⟨zero, fun returns => ?_⟩
  have same := returns.lastNum
  rw [zero] at same
  contradiction

/-! ## The id of a user -/

/-- What `main` has when it comes to `new Client(client_socket, lastip)` for a peer at `a.b.c.d`. -/
def acceptedFrom (fd : Int) (a b c d : UInt8) (junk : Mem) (behind : List UInt8) (raw : Client) :
    Accepted where
  fd := fd
  lastip := Int32.ofInt (getAddress (some (inetNtop a b c d junk)) behind).lastNum
  raw := raw

/-- With eight digits in the first three octets the last one becomes the id of the user. -/
theorem userID_of_eight (s : Server) (fd : Int) (raw : Client) (eight : digitCount a b c = 8) :
    ∃ o, (s.acceptClient (acceptedFrom fd a b c d junk behind raw)).client fd = some o ∧
      o.userID.toInt = d.toNat := by
  have lt := d.toNat_lt
  have all : d.toNat % 10 ^ ((octetDigits d.toNat).length - 0) = d.toNat := by
    rcases octetDigits_cases d.toNat with ⟨_, e⟩ | ⟨_, _, e⟩ | ⟨_, e⟩ <;> simp [e] <;> omega
  have returns : ReturnsLast a b c d (getAddress (some (inetNtop a b c d junk)) behind) :=
    (getAddress_inside eight (Nat.zero_le _)).mpr all
  refine ⟨_, Function.update_self .., ?_⟩
  show (Int32.ofInt _).toInt = _
  rw [returns.lastNum]
  exact Int32.toInt_ofInt_of_le (by omega) (by omega)

end Projector
