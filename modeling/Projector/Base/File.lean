import Mathlib.Tactic.Lemma
import Mathlib.Tactic.TypeStar

/-!
# Files by position, and structures as they lie in memory

A file is the list of its bytes. `fread` reads an object at a position and leaves those bytes of it as they
were that the file does not have; `fwrite` writes at a position and fills a gap in front of it. Writing at
the end appends (`fwrite_length`), and what lies between two other parts of a file is read back
(`fread_part`).

`record` is a C structure with natural alignment, given as the list of its fields with their alignments.
-/

namespace Projector

variable {β : Type*}

/-- `fseek(f, pos, 0); fread(&object, sizeof(object), 1, f)` for an object with these bytes. -/
def fread (f : List β) (pos : Nat) (object : List β) : List β :=
  (f.drop pos).take object.length ++ object.drop (f.length - pos)

/-- `fseek(f, pos, 0); fwrite(bs, 1, sizeof(bs), f)`, a gap being filled with `fill`. -/
def fwrite (fill : β) (f : List β) (pos : Nat) (bs : List β) : List β :=
  f.take pos ++ List.replicate (pos - f.length) fill ++ bs ++ f.drop (pos + bs.length)

variable {f object : List β} {pos : Nat} {fill : β}

/-- An object that the file has is read from it. -/
lemma fread_eq (h : pos + object.length ≤ f.length) :
    fread f pos object = (f.drop pos).take object.length := by
  rw [fread, List.drop_of_length_le (by omega : object.length ≤ f.length - pos), List.append_nil]

/-- One of the parts that a file begins with. -/
lemma take_drop_part (front : List (List β)) {parts back : List (List β)} {part : List β}
    (split : parts = front ++ part :: back) (place : front.flatten.length = pos) (rest : List β) :
    ((parts.flatten ++ rest).drop pos).take part.length = part := by
  have file : parts.flatten ++ rest = front.flatten ++ (part ++ (back.flatten ++ rest)) := by
    simp [split]
  rw [file, ← place, List.drop_left, List.take_left]

/-- It is read back. -/
lemma fread_part (front : List (List β)) {parts back : List (List β)} {part : List β}
    (split : parts = front ++ part :: back) (place : front.flatten.length = pos)
    (same : part.length = object.length) (rest : List β) :
    fread (parts.flatten ++ rest) pos object = part := by
  have long : pos + part.length ≤ (parts.flatten ++ rest).length := by
    simp only [split, List.flatten_append, List.flatten_cons, List.length_append, place]
    omega
  rw [fread_eq (by omega), ← same, take_drop_part front split place]

/-- Writing at the end of a file appends. -/
@[simp] lemma fwrite_length (bs : List β) : fwrite fill f f.length bs = f ++ bs := by
  simp [fwrite]

/-! ## Structures -/

/-- Bytes filled up to a multiple of `align`. -/
def aligned (fill : β) (align : Nat) (bs : List β) : List β :=
  bs ++ List.replicate ((align - bs.length % align) % align) fill

/-- A structure: each field at the next place that has its alignment, and the whole filled up to the
alignment of the structure. -/
def record (fill : β) (fields : List (Nat × List β)) : List β :=
  aligned fill ((fields.map Prod.fst).foldl max 1)
    (fields.foldl (fun bs field => aligned fill field.1 bs ++ field.2) [])

end Projector
