import PolyLambda.Text.Utf8

/-!
# Decoding goes on after a newline

A character is decoded where its UTF-8 sequence stands and nowhere else
(`Text.leadingChar?_eq_some`).  The bytes of a sequence of two or more are above those of
ASCII.  So no sequence reaches over a newline, and the bytes before it decode as they do
alone (`Text.decode_append_newline`).
-/

namespace PolyLambda
namespace Text

/-! ## The sequence of a character -/

/-- The number spelled by `lead` and six bits of each further byte. -/
def codeAfter (lead : Nat) (more : List UInt8) : Nat :=
  more.foldl (fun n x => n * 64 + x.toNat % 64) lead

theorem toNat_ofNat_byte {n : Nat} (h : n < 256) : (UInt8.ofNat n).toNat = n := by
  rw [UInt8.toNat_ofNat']
  exact Nat.mod_eq_of_lt h

theorem sequenceLength_eq (b : UInt8) :
    sequenceLength b = if b.toNat < 128 then 1 else if b.toNat < 224 then 2
      else if b.toNat < 240 then 3 else 4 := by
  simp [sequenceLength, UInt8.lt_iff_toNat_lt]

theorem leadBits_eq (b : UInt8) :
    leadBits b = if b.toNat < 128 then b.toNat else if b.toNat < 224 then b.toNat % 32
      else if b.toNat < 240 then b.toNat % 16 else b.toNat % 8 := by
  simp [leadBits, UInt8.lt_iff_toNat_lt]

/-- What decoding relies on in a sequence: the first byte gives the length, the bits of all
bytes give the character, and a sequence of several bytes has none of ASCII. -/
structure IsSequence (c : Char) (b : UInt8) (more : List UInt8) : Prop where
  length : sequenceLength b = more.length + 1
  code : codeAfter (leadBits b) more = c.toNat
  above : more ≠ [] → ∀ x ∈ b :: more, 128 ≤ x.toNat

theorem exists_isSequence (c : Char) :
    ∃ b more, String.utf8EncodeChar c = b :: more ∧ IsSequence c b more := by
  have hlt : c.toNat < 0x110000 := by
    rcases c.valid with h | h
    · exact Nat.lt_trans h (by decide)
    · exact h.2
  have hencode : String.utf8EncodeChar c =
      if c.toNat ≤ 127 then [UInt8.ofNat c.toNat]
      else if c.toNat ≤ 2047 then
        [UInt8.ofNat (c.toNat / 64 % 32 + 192), UInt8.ofNat (c.toNat % 64 + 128)]
      else if c.toNat ≤ 65535 then
        [UInt8.ofNat (c.toNat / 4096 % 16 + 224), UInt8.ofNat (c.toNat / 64 % 64 + 128),
          UInt8.ofNat (c.toNat % 64 + 128)]
      else
        [UInt8.ofNat (c.toNat / 262144 % 8 + 240), UInt8.ofNat (c.toNat / 4096 % 64 + 128),
          UInt8.ofNat (c.toNat / 64 % 64 + 128), UInt8.ofNat (c.toNat % 64 + 128)] := rfl
  rw [hencode]
  by_cases h1 : c.toNat ≤ 127
  · refine ⟨_, _, if_pos h1, ?_, ?_, fun h => absurd rfl h⟩
    · rw [sequenceLength_eq, toNat_ofNat_byte (by omega), if_pos (by omega)]
      rfl
    · rw [leadBits_eq, toNat_ofNat_byte (by omega), if_pos (by omega)]
      rfl
  by_cases h2 : c.toNat ≤ 2047
  · have hb := toNat_ofNat_byte (n := c.toNat / 64 % 32 + 192) (by omega)
    have hx := toNat_ofNat_byte (n := c.toNat % 64 + 128) (by omega)
    refine ⟨_, _, (if_neg h1).trans (if_pos h2), ?_, ?_, fun _ => ?_⟩
    · rw [sequenceLength_eq, hb, if_neg (by omega), if_pos (by omega)]
      rfl
    · rw [leadBits_eq, hb, if_neg (by omega), if_pos (by omega)]
      simp only [codeAfter, List.foldl_cons, List.foldl_nil, hx]
      omega
    · simp only [List.forall_mem_cons, hb, hx]
      exact ⟨by omega, by omega, nofun⟩
  by_cases h3 : c.toNat ≤ 65535
  · have hb := toNat_ofNat_byte (n := c.toNat / 4096 % 16 + 224) (by omega)
    have hx := toNat_ofNat_byte (n := c.toNat / 64 % 64 + 128) (by omega)
    have hy := toNat_ofNat_byte (n := c.toNat % 64 + 128) (by omega)
    refine ⟨_, _, (if_neg h1).trans ((if_neg h2).trans (if_pos h3)), ?_, ?_, fun _ => ?_⟩
    · rw [sequenceLength_eq, hb, if_neg (by omega), if_neg (by omega), if_pos (by omega)]
      rfl
    · rw [leadBits_eq, hb, if_neg (by omega), if_neg (by omega), if_pos (by omega)]
      simp only [codeAfter, List.foldl_cons, List.foldl_nil, hx, hy]
      omega
    · simp only [List.forall_mem_cons, hb, hx, hy]
      exact ⟨by omega, by omega, by omega, nofun⟩
  · have hb := toNat_ofNat_byte (n := c.toNat / 262144 % 8 + 240) (by omega)
    have hx := toNat_ofNat_byte (n := c.toNat / 4096 % 64 + 128) (by omega)
    have hy := toNat_ofNat_byte (n := c.toNat / 64 % 64 + 128) (by omega)
    have hz := toNat_ofNat_byte (n := c.toNat % 64 + 128) (by omega)
    refine ⟨_, _, (if_neg h1).trans ((if_neg h2).trans (if_neg h3)), ?_, ?_, fun _ => ?_⟩
    · rw [sequenceLength_eq, hb, if_neg (by omega), if_neg (by omega), if_neg (by omega)]
      rfl
    · rw [leadBits_eq, hb, if_neg (by omega), if_neg (by omega), if_neg (by omega)]
      simp only [codeAfter, List.foldl_cons, List.foldl_nil, hx, hy, hz]
      omega
    · simp only [List.forall_mem_cons, hb, hx, hy, hz]
      exact ⟨by omega, by omega, by omega, by omega, nofun⟩

/-! ## Decoding -/

/-- A character is decoded exactly where its sequence stands. -/
theorem leadingChar?_eq_some {bs : List UInt8} {c : Char} :
    leadingChar? bs = some c ↔ String.utf8EncodeChar c <+: bs := by
  refine ⟨leadingChar?_isPrefix, fun hprefix => ?_⟩
  obtain ⟨b, more, hencode, hseq⟩ := exists_isSequence c
  obtain ⟨rest, rfl⟩ := hprefix
  have htake : (more ++ rest).take (sequenceLength b - 1) = more := by
    rw [hseq.length, Nat.add_sub_cancel, List.take_left]
  have hcode : (more.foldl (fun n x => n * 64 + x.toNat % 64) (leadBits b)) = c.toNat := hseq.code
  rw [hencode, List.cons_append, leadingChar?]
  simp only [htake, hcode, Char.ofNat_toNat, hencode]
  exact if_pos (List.isPrefixOf_iff_prefix.mpr (List.prefix_append (b :: more) rest))

theorem decodeAfter_eq_drop (k : Nat) (bs : List UInt8) :
    decodeAfter k bs = decode (bs.drop k) := by
  induction k generalizing bs with
  | zero => rfl
  | succ k ih =>
    cases bs with
    | nil => rfl
    | cons b bs => exact ih bs

/-- What has no stray bytes is decoded from its bytes. -/
theorem decode_bytes_ofChars (cs : List Char) : decode (ofChars cs).bytes = ofChars cs := by
  induction cs with
  | nil => rfl
  | cons c cs ih =>
    have hbytes : (ofChars (c :: cs)).bytes = String.utf8EncodeChar c ++ (ofChars cs).bytes := rfl
    have hlead := leadingChar?_eq_some.mpr
      (List.prefix_append (String.utf8EncodeChar c) (ofChars cs).bytes)
    obtain ⟨b, more, hencode, -⟩ := exists_isSequence c
    rw [hencode, List.cons_append] at hlead
    rw [hbytes, hencode, List.cons_append, decode, decodeAfter, hlead]
    simp only [hencode, decodeAfter_eq_drop, List.length_cons, Nat.add_sub_cancel, List.drop_left,
      ih]
    rfl

/-- No sequence reaches over a newline. -/
theorem utf8EncodeChar_prefix_append_newline {c : Char} {b : UInt8} {bs cs : List UInt8}
    (h : String.utf8EncodeChar c <+: (b :: bs) ++ 0x0A :: cs) :
    String.utf8EncodeChar c <+: b :: bs := by
  by_cases hle : (String.utf8EncodeChar c).length ≤ (b :: bs).length
  · exact List.prefix_of_prefix_length_le h (List.prefix_append _ _) hle
  · -- a longer sequence would have the newline among its bytes
    have hline : (b :: bs) ++ [0x0A] <+: (b :: bs) ++ 0x0A :: cs :=
      (List.prefix_append_right_inj _).mpr (List.prefix_append [0x0A] cs)
    have hover : (b :: bs) ++ [0x0A] <+: String.utf8EncodeChar c := by
      refine List.prefix_of_prefix_length_le hline h ?_
      simp only [List.length_append, List.length_cons, List.length_nil] at hle ⊢
      omega
    have hmem : 0x0A ∈ String.utf8EncodeChar c := hover.subset (by simp)
    obtain ⟨x, more, hencode, hseq⟩ := exists_isSequence c
    rw [hencode] at hle hmem
    have hmore : more ≠ [] := by
      rintro rfl
      simp at hle
    exact absurd (hseq.above hmore _ hmem) (by decide)

theorem leadingChar?_append_newline (b : UInt8) (bs cs : List UInt8) :
    leadingChar? ((b :: bs) ++ 0x0A :: cs) = leadingChar? (b :: bs) := by
  refine Option.ext fun c => ?_
  rw [leadingChar?_eq_some, leadingChar?_eq_some]
  exact ⟨utf8EncodeChar_prefix_append_newline, fun h => h.trans (List.prefix_append _ _)⟩

theorem decodeAfter_append_newline {k : Nat} {bs : List UInt8} (hk : k ≤ bs.length)
    (cs : List UInt8) :
    decodeAfter k (bs ++ 0x0A :: cs) = decodeAfter k bs ++ .char '\n' :: decode cs := by
  induction bs generalizing k with
  | nil =>
    obtain rfl := Nat.le_zero.mp hk
    have hnewline : leadingChar? (0x0A :: cs) = some '\n' :=
      leadingChar?_eq_some.mpr (List.prefix_append [0x0A] cs)
    have hstep : decodeAfter 0 (0x0A :: cs) = .char '\n' :: decode cs := by
      rw [decodeAfter, hnewline]
      rfl
    exact hstep
  | cons b bs ih =>
    cases k with
    | succ k => exact ih (Nat.le_of_succ_le_succ hk)
    | zero =>
      have hlead := leadingChar?_append_newline b bs cs
      rw [List.cons_append] at hlead ⊢
      rw [decodeAfter, decodeAfter, hlead]
      cases hc : leadingChar? (b :: bs) with
      | none => exact congrArg (Glyph.stray b :: ·) (ih (Nat.zero_le _))
      | some c =>
        have hle := (leadingChar?_isPrefix hc).length_le
        rw [List.length_cons] at hle
        exact congrArg (Glyph.char c :: ·) (ih (by omega))

/-- **Decoding is compositional across a newline.** -/
theorem decode_append_newline (bs cs : List UInt8) :
    decode (bs ++ 0x0A :: cs) = decode bs ++ .char '\n' :: decode cs :=
  decodeAfter_append_newline (Nat.zero_le _) cs

end Text
end PolyLambda
