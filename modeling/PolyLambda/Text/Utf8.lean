import PolyLambda.Text

/-!
# Bytes as text

`Text.decode` reads a byte sequence as a text.  At each point it takes the
character whose UTF-8 sequence starts there; where no sequence does, one byte is
taken as a stray glyph.  Nothing is lost: the bytes of the decoded text are the
bytes that were read (`Text.bytes_decode`).
-/

namespace PolyLambda
namespace Text

/-- The number of bytes of a sequence that starts with `b`, by its leading bits. -/
def sequenceLength (b : UInt8) : Nat :=
  if b < 0x80 then 1 else if b < 0xE0 then 2 else if b < 0xF0 then 3 else 4

/-- The bits of a sequence's first byte that belong to the code point. -/
def leadBits (b : UInt8) : Nat :=
  if b < 0x80 then b.toNat
  else if b < 0xE0 then b.toNat % 32
  else if b < 0xF0 then b.toNat % 16
  else b.toNat % 8

/-- The character whose UTF-8 sequence starts the given bytes.  The candidate is
spelled by the leading bits of the first byte and six bits of each further one;
it counts only if its own sequence is what stands there. -/
def leadingChar? : List UInt8 → Option Char
  | [] => none
  | b :: bs =>
    let more := bs.take (sequenceLength b - 1)
    let c := Char.ofNat (more.foldl (fun n x => n * 64 + x.toNat % 64) (leadBits b))
    if (String.utf8EncodeChar c).isPrefixOf (b :: bs) then some c else none

/-- Decoding when the next `k` bytes belong to a character already taken. -/
def decodeAfter : Nat → List UInt8 → Text
  | _, [] => []
  | k + 1, _ :: bs => decodeAfter k bs
  | 0, b :: bs =>
    match leadingChar? (b :: bs) with
    | some c => .char c :: decodeAfter ((String.utf8EncodeChar c).length - 1) bs
    | none => .stray b :: decodeAfter 0 bs

/-- The text spelled by a byte sequence. -/
def decode (bs : List UInt8) : Text := decodeAfter 0 bs

theorem leadingChar?_isPrefix {bs : List UInt8} {c : Char} (h : leadingChar? bs = some c) :
    String.utf8EncodeChar c <+: bs := by
  cases bs with
  | nil => simp [leadingChar?] at h
  | cons b bs =>
    simp only [leadingChar?] at h
    split at h
    · next hp => rw [← Option.some.inj h]; exact List.isPrefixOf_iff_prefix.1 hp
    · cases h

theorem bytes_decodeAfter (k : Nat) (bs : List UInt8) :
    (decodeAfter k bs).bytes = bs.drop k := by
  induction bs generalizing k with
  | nil => cases k <;> simp [decodeAfter, bytes]
  | cons b bs ih =>
    cases k with
    | succ k => simp [decodeAfter, ih]
    | zero =>
      simp only [decodeAfter]
      split
      · next c hc =>
        obtain ⟨tail, ht⟩ := leadingChar?_isPrefix hc
        have hlen := String.length_utf8EncodeChar c
        cases hseq : String.utf8EncodeChar c with
        | nil => simp [hseq] at hlen; have := c.utf8Size_pos; omega
        | cons x xs =>
          rw [hseq] at ht
          obtain ⟨rfl, rfl⟩ := List.cons.inj ht
          have := ih xs.length
          simp only [bytes, List.flatMap_cons, Glyph.bytes, hseq, List.length_cons,
            Nat.add_sub_cancel, List.drop_zero] at this ⊢
          rw [this]; simp
      · have := ih 0
        simp only [bytes, List.flatMap_cons, Glyph.bytes] at this ⊢
        rw [this]; simp

/-- **Decoding loses nothing**: the decoded text has the bytes that were read. -/
@[simp]
theorem bytes_decode (bs : List UInt8) : (decode bs).bytes = bs := by
  simp [decode, bytes_decodeAfter]

end Text
end PolyLambda
