import Projector.Base.Reader
import Projector.Server.Observer

/-!
# The frame of the user list

`userListThread` sums up the lengths in one loop and copies the records in another. `encodeRecord` is the
layout of one record and `Fill.Holds` the invariant of the second loop: the buffer holds what was put so
far, and no copy went beyond it. The reader of the frame is built from the rules of `Reads`
(`reads_records`); `sendList_round_trip` is the result for one iteration of the thread.
-/

namespace Projector

/-- What a record says about a user. -/
structure UserRecord where
  id : Int
  name : List UInt8
  image : List UInt8
deriving DecidableEq

/-- What the record of this client is to say. -/
def Client.record (c : Client) : UserRecord := ⟨c.userID.toInt, c.name, c.jpeg⟩

/-- The bytes of one record. -/
def encodeRecord (c : Client) : List UInt8 :=
  intBytes c.userID.toInt ++ (intBytes c.userNameLength ++ c.name) ++
    (intBytes c.jpegOffset ++ c.jpeg)

/-! ## The reader -/

/-- An `int`. -/
def readInt : Reader UInt8 Int := intOfBytes <$> Reader.take 4

/-- A length and as many bytes. -/
def readBytes : Reader UInt8 (List UInt8) := do
  let n ← readInt
  if 0 ≤ n then Reader.take n.toNat else failure

/-- The fields of a record. -/
def readRecord : Reader UInt8 UserRecord := do
  let id ← readInt
  let name ← readBytes
  let image ← readBytes
  return ⟨id, name, image⟩

/-- A count and as many records. -/
def readRecords : Reader UInt8 (List UserRecord) := do
  let count ← readInt
  if 0 ≤ count then Reader.many readRecord count.toNat else failure

/-- A number is read back. -/
lemma reads_int {z : Int} (h : InInt z) : Reads readInt (intBytes z) z := by
  have four := reads_take (intBytes z)
  rw [length_intBytes] at four
  have read := four.map (f := intOfBytes)
  rwa [intOfBytes_intBytes_of_inInt h] at read

/-- A length and its bytes are read back. -/
lemma reads_bytes {bs : List UInt8} (h : bs.length < 2 ^ 31) :
    Reads readBytes (intBytes bs.length ++ bs) bs := by
  apply (reads_int ⟨by omega, by omega⟩).bind
  rw [if_pos (Int.natCast_nonneg _), Int.toNat_natCast]
  exact reads_take bs

/-- The length of the name. -/
@[simp] lemma Client.length_name (c : Client) : c.name.length = c.userNameLength := by
  simp [Client.name]

/-- The length of the image. -/
@[simp] lemma Client.length_jpeg (c : Client) : c.jpeg.length = c.jpegOffset := by
  simp [Client.jpeg]

/-- The length of a record. -/
lemma length_encodeRecord (c : Client) :
    (encodeRecord c).length = 12 + c.userNameLength + c.jpegOffset := by
  simp only [encodeRecord, List.length_append, length_intBytes, Client.length_name,
    Client.length_jpeg]
  omega

/-- A record of less than two gigabytes is read back. -/
lemma reads_record {c : Client} (h : (encodeRecord c).length < 2 ^ 31) :
    Reads readRecord (encodeRecord c) c.record := by
  rw [length_encodeRecord] at h
  have id : Reads readInt (intBytes c.userID.toInt) c.userID.toInt :=
    reads_int ⟨c.userID.le_toInt, c.userID.toInt_lt⟩
  have name : Reads readBytes (intBytes c.userNameLength ++ c.name) c.name := by
    rw [← c.length_name]
    exact reads_bytes (by rw [c.length_name]; omega)
  have image : Reads readBytes (intBytes c.jpegOffset ++ c.jpeg) c.jpeg := by
    rw [← c.length_jpeg]
    exact reads_bytes (by rw [c.length_jpeg]; omega)
  rw [encodeRecord, List.append_assoc]
  apply id.bind
  apply name.bind
  exact image.map

/-- A record has at least one byte. -/
lemma length_le_flatMap (cs : List Client) : cs.length ≤ (cs.flatMap encodeRecord).length := by
  induction cs with
  | nil => simp
  | cons c cs ih =>
    rw [List.flatMap_cons, List.length_append, length_encodeRecord, List.length_cons]
    omega

/-- A count and the records are read back. -/
lemma reads_records {cs : List Client} (h : (cs.flatMap encodeRecord).length < 2 ^ 31) :
    Reads readRecords (intBytes cs.length ++ cs.flatMap encodeRecord) (cs.map Client.record) := by
  have few := length_le_flatMap cs
  apply (reads_int ⟨by omega, by omega⟩).bind
  rw [if_pos (Int.natCast_nonneg _), Int.toNat_natCast]
  apply reads_many
  intro c mem
  obtain ⟨before, after, rfl⟩ := List.append_of_mem mem
  apply reads_record
  rw [List.flatMap_append, List.flatMap_cons, List.length_append, List.length_append] at h
  omega

/-! ## The two passes -/

namespace Server

namespace Fill

/-- What was put so far is `bs`, and no copy went beyond it. -/
structure Holds (f : Fill) (bs : List UInt8) : Prop where
  offset : f.sendOffset = bs.length
  bytes : f.sendBuf.read 0 f.sendOffset = bs
  inside : ∀ w ∈ f.writes, w.1 + w.2 ≤ f.sendOffset

variable {f : Fill} {bs : List UInt8}

/-- An empty buffer. -/
lemma holds_nil (fresh : Mem) : (Fill.mk fresh 0 []).Holds [] where
  offset := rfl
  bytes := rfl
  inside := by simp

/-- Some bytes more. -/
lemma Holds.put (h : f.Holds bs) (src : Mem) (n : Nat) : (f.put src n).Holds (bs ++ src.read 0 n) where
  offset := by simp [Fill.put, h.offset]
  bytes := by
    show (f.sendBuf.memcpy f.sendOffset src 0 n).read 0 (f.sendOffset + n) = _
    rw [Mem.read_memcpy_append, h.bytes]
  inside w mem := by
    change w ∈ f.writes ++ [(f.sendOffset, n)] at mem
    show w.1 + w.2 ≤ f.sendOffset + n
    rcases List.mem_append.mp mem with mem | mem
    · have before := h.inside w mem
      omega
    · rw [List.mem_singleton.mp mem]

/-- A number more. -/
lemma Holds.putInt (h : f.Holds bs) (z : Int) : (f.putInt z).Holds (bs ++ intBytes z) := by
  have four := Mem.read_overlay (fun _ => 0) (intBytes z)
  rw [length_intBytes] at four
  have put := h.put (Mem.overlay (fun _ => 0) (intBytes z)) 4
  rwa [four] at put

/-- A record more. -/
lemma Holds.putClient (h : f.Holds bs) (c : Client) :
    (f.putClient c).Holds (bs ++ encodeRecord c) := by
  have put := ((((h.putInt c.userID.toInt).putInt c.userNameLength).put
    (c.userName.getD .null).mem c.userNameLength).putInt c.jpegOffset).put
    (c.jpegBuffer.getD .null).mem c.jpegOffset
  simp only [encodeRecord, List.append_assoc]
  simp only [List.append_assoc] at put
  exact put

end Fill

variable {beyond : Int → Bool} {fresh : Mem} {s : Server}

/-- The clients of the records, in order. -/
def listedClients (beyond : Int → Bool) (s : Server) : List Client :=
  slots.filterMap (s.listed beyond)

/-- One more slot adds the record of its client, if it is listed. -/
lemma records_concat (is : List Int) (i : Int) :
    ((is ++ [i]).filterMap (s.listed beyond)).flatMap encodeRecord =
      (is.filterMap (s.listed beyond)).flatMap encodeRecord ++
        ((s.listed beyond i).map encodeRecord).getD [] := by
  rw [List.filterMap_append, List.flatMap_append]
  cases hc : s.listed beyond i with
  | none => rw [List.filterMap_cons_none hc]; rfl
  | some c =>
    rw [List.filterMap_cons_some hc]
    simp

/-- The first pass adds up the records and the count. -/
lemma dataLength_eq :
    s.dataLength beyond = 4 + ((s.listedClients beyond).flatMap encodeRecord).length := by
  apply foldl_rule fun is n => n = 4 + ((is.filterMap (s.listed beyond)).flatMap encodeRecord).length
  case start => rfl
  case keeps =>
    intro is i n sum
    rw [records_concat, List.length_append, sum]
    cases s.listed beyond i with
    | none => rfl
    | some c =>
      show _ + 4 + (4 + c.userNameLength) + (4 + c.jpegOffset) = 4 + (_ + (encodeRecord c).length)
      rw [length_encodeRecord]
      omega

/-- The second pass puts the header, the count and the records. -/
lemma fill_holds : (s.fill beyond fresh).Holds
    (intBytes sendUserList ++ intBytes (s.dataLength beyond) ++
      (intBytes (s.userCount - 1) ++ (s.listedClients beyond).flatMap encodeRecord)) := by
  have header : (Fill.header fresh (s.dataLength beyond) (s.userCount - 1)).Holds
      (intBytes sendUserList ++ intBytes (s.dataLength beyond) ++ intBytes (s.userCount - 1)) :=
    (((Fill.holds_nil fresh).putInt sendUserList).putInt (s.dataLength beyond)).putInt
      (s.userCount - 1)
  rw [← List.append_assoc]
  refine foldl_rule (fun is (f : Fill) => f.Holds (intBytes sendUserList ++
    intBytes (s.dataLength beyond) ++ intBytes (s.userCount - 1) ++
      (is.filterMap (s.listed beyond)).flatMap encodeRecord)) ?start ?keeps slots
  case start => simpa using header
  case keeps =>
    intro is i f holds
    rw [records_concat, ← List.append_assoc]
    cases s.listed beyond i with
    | none => simpa using holds
    | some c => exact holds.putClient c

/-! ## The records and the count -/

/-- When the watched set and the table agree, the records are those of the other connections, in the order
of the slots. -/
lemma listedClients_eq (watched : ∀ i, (s.client i).isSome → s.readFds i = true)
    (slot : ∀ i c, s.client i = some c → c.fd = i) :
    s.listedClients beyond = s.others.filterMap s.client := by
  rw [listedClients, others, List.filterMap_filter]
  apply List.filterMap_congr
  intro i mem
  cases hc : s.client i with
  | none => simp [listed, hc]
  | some c =>
    have isset : s.isset beyond i = true := by
      rw [isset_of_mem_slots mem, watched i (by rw [hc]; rfl)]
    simp [listed, hc, slot i c hc, isset]

/-- There are as many of these as others. -/
lemma length_filterMap_others : (s.others.filterMap s.client).length = s.others.length := by
  rw [List.filterMap_length_eq_length]
  intro i mem
  exact (mem_others.mp mem).2.1

/-- The others are all connections but the holder. -/
lemma length_others : s.others.length + (if (s.client s.focusFd).isSome ∧ s.focusFd ∈ slots then 1 else 0)
    = slots.countP fun i => (s.client i).isSome := by
  have nodup : (slots.filter fun i => (s.client i).isSome).Nodup := nodup_slots.filter _
  have others : s.others = (slots.filter fun i => (s.client i).isSome).erase s.focusFd := by
    rw [nodup.erase_eq_filter, List.filter_filter, Server.others]
    apply List.filter_congr
    intro i _
    by_cases holder : i = s.focusFd <;> simp [holder]
  have mem : s.focusFd ∈ (slots.filter fun i => (s.client i).isSome) ↔
      (s.client s.focusFd).isSome ∧ s.focusFd ∈ slots := by
    rw [List.mem_filter]
    exact and_comm
  rw [others, List.countP_eq_length_filter]
  by_cases holder : (s.client s.focusFd).isSome ∧ s.focusFd ∈ slots
  · have pos := List.length_pos_of_mem (mem.mpr holder)
    rw [if_pos holder, List.length_erase_of_mem (mem.mpr holder)]
    omega
  · rw [if_neg holder, List.erase_of_not_mem (fun h => holder (mem.mp h))]
    rfl

/-- One iteration of `userListThread` when the watched set, the table and the counter agree, with a
connected holder of the focus and other users: the frame is a header of type 3 with the length of the
rest, and the rest is read back as the records of the others, to the last byte. The copies fill the
buffer and stay inside it. -/
theorem sendList_round_trip
    (watched : ∀ i, s.readFds i = true ↔ i = s.serverSocket ∨ (s.client i).isSome)
    (slot : ∀ i c, s.client i = some c → c.fd = i) (inTable : ∀ i, (s.client i).isSome → i ∈ slots)
    (count : s.userCount = slots.countP fun i => (s.client i).isSome) (many : 1 < s.userCount)
    (pos : 0 < s.focusFd) (holder : (s.client s.focusFd).isSome)
    (small : 4 + ((s.others.filterMap s.client).map
      fun c => 12 + c.userNameLength + c.jpegOffset).sum < 2 ^ 31 - 8) :
    ∃ header payload,
      s.sendList beyond fresh = [.list s.focusFd (header ++ payload)] ∧
      header = intBytes sendUserList ++ intBytes payload.length ∧
      readRecords.run payload = some ((s.others.filterMap s.client).map Client.record, []) ∧
      payload.length = s.dataLength beyond ∧
      (s.fill beyond fresh).sendOffset = headerSize + s.dataLength beyond ∧
      ∀ w ∈ (s.fill beyond fresh).writes, w.1 + w.2 ≤ headerSize + s.dataLength beyond := by
  have filled : (s.fill beyond fresh).Holds _ := fill_holds
  have listed : s.listedClients beyond = s.others.filterMap s.client :=
    listedClients_eq (fun i hc => (watched i).mpr (.inr hc)) slot
  have size : s.dataLength beyond = 4 + ((s.listedClients beyond).flatMap encodeRecord).length :=
    dataLength_eq
  have records : ((s.others.filterMap s.client).map
      fun c => 12 + c.userNameLength + c.jpegOffset).sum =
      ((s.listedClients beyond).flatMap encodeRecord).length := by
    simp only [listed, List.length_flatMap, length_encodeRecord]
  have number : s.userCount - 1 = (s.listedClients beyond).length := by
    -- The holder is a connection, and the only one that is not listed.
    have sum := length_others (s := s)
    rw [if_pos ⟨holder, inTable _ holder⟩] at sum
    rw [listed, length_filterMap_others]
    omega
  have payload : (intBytes (s.userCount - 1) ++ (s.listedClients beyond).flatMap encodeRecord).length
      = s.dataLength beyond := by
    rw [List.length_append, length_intBytes, size]
  have offset : (s.fill beyond fresh).sendOffset = headerSize + s.dataLength beyond := by
    rw [filled.offset, List.length_append, payload, List.length_append, length_intBytes,
      length_intBytes, headerSize]
  refine ⟨intBytes sendUserList ++ intBytes (s.dataLength beyond), _, ?_, ?_, ?_, payload, offset, ?_⟩
  · rw [sendList, if_pos ⟨pos, many⟩, frame, filled.bytes]
  · rw [payload]
  · rw [number, ← listed]
    exact (reads_records (by omega)).run_eq
  · intro w mem
    rw [← offset]
    exact filled.inside w mem

/-- The second of three users sends a name, and the third an image. -/
def threeSend : List Input :=
  [.read 5 [2, 0, 0, 0, 2, 0, 0, 0, 97, 98] .cleared,
    .read 6 [5, 0, 0, 0, 3, 0, 0, 0, 255, 216, 255] .cleared]

/-- `sendList_round_trip` behind `threeSend`. -/
theorem sendList_round_trip_three : ∃ s h,
    exec (Server.step .none) three threeSend = some (s, h) ∧ s.focusFd = 4 ∧
    (s.others.filterMap s.client).map Client.record =
      [⟨11, [97, 98], []⟩, ⟨12, [], [255, 216, 255]⟩] ∧
    ∃ header payload,
      s.sendList (fun _ => false) (fun _ => 0) = [.list s.focusFd (header ++ payload)] ∧
      header = intBytes sendUserList ++ intBytes payload.length ∧
      readRecords.run payload = some ((s.others.filterMap s.client).map Client.record, []) ∧
      payload.length = s.dataLength (fun _ => false) ∧
      (s.fill (fun _ => false) (fun _ => 0)).sendOffset = headerSize + s.dataLength (fun _ => false) ∧
      ∀ w ∈ (s.fill (fun _ => false) (fun _ => 0)).writes,
        w.1 + w.2 ≤ headerSize + s.dataLength (fun _ => false) := by
  have run : (exec (Server.step .none) three threeSend).map (fun r => decide (r.1.focusFd = 4 ∧
      (r.1.others.filterMap r.1.client).map Client.record =
        [⟨11, [97, 98], []⟩, ⟨12, [], [255, 216, 255]⟩] ∧ 1 < r.1.userCount ∧
      (r.1.client r.1.focusFd).isSome ∧ 4 + ((r.1.others.filterMap r.1.client).map
        fun c => 12 + c.userNameLength + c.jpegOffset).sum < 2 ^ 31 - 8)) = some true := by
    decide +kernel
  obtain ⟨⟨s, h⟩, e, facts⟩ := Option.map_eq_some_iff.mp run
  obtain ⟨focus, records, many, holder, small⟩ := of_decide_eq_true facts
  have reached : ∃ h', Reached .none Small h' s := by
    obtain ⟨serverSocket, screen, fbp, chunk, before⟩ := three_reached
    have adm : Admitted (Server.step .none) Small three threeSend := ⟨trivial, trivial, trivial⟩
    exact ⟨_, serverSocket, screen, fbp, chunk, before.trans (run_of_exec adm e)⟩
  obtain ⟨h', reached⟩ := reached
  have inTable (i : Int) (hc : (s.client i).isSome) : i ∈ slots :=
    reached.inTable (fun _ _ ok => ok) hc
  exact ⟨s, h, e, focus, records, sendList_round_trip reached.sound.watched reached.sound.slot inTable
    (reached.sound.counted.eq_countP inTable) many (by rw [focus]; decide) holder small⟩

end Server

end Projector
