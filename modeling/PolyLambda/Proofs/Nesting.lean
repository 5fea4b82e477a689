import PolyLambda.Proofs.Coverage
import PolyLambda.Proofs.Grammar.Nodes
import PolyLambda.Proofs.Location

/-!
# Ranges nest in their source

Every node of a term that was read has a range in the source.  The ranges of its parts lie
inside it: those of an application from its start to its end and one after the other, and that of
a body up to the end.  The range of a name covers the characters of the name, and that of a
literal covers digits that spell its value.

How ranges lie to each other is settled for derivations (`Grammar.Derives.nests`).  Here they are
tied to the characters: a leaf is a single token (`Grammar.Derives.exists_node`), and a token is
the characters at its range (`Token.StandsIn.chars_within`).
-/

namespace PolyLambda

theorem Text.chars_within (source : Text) (r : Range) : (source.within r).chars =
    source.chars.extract (r.start - 1).toNat (r.stop - 1).toNat := by
  simp [within, chars, List.map_take, List.map_drop]

/-- The characters are a decimal literal of the value: digits, with a sign or without one. -/
def IsLiteral (cs : List Char) (value : Int) : Prop :=
  ∃ ds, ds ≠ [] ∧ (∀ d ∈ ds, isDigit d = true) ∧
    (cs = ds ∧ value = Nat.ofDigitChars 10 ds 0 ∨
      cs = '-' :: ds ∧ value = - (Nat.ofDigitChars 10 ds 0 : Int))

/-- How the range of a node lies to the ranges of its parts, and which characters of the source
it covers if it has none. -/
def Term.PlacedIn (source : Text) : Term → Prop
  | int r n => IsLiteral (source.within r).chars n.toInt
  | var r x => .ofChars (source.within r).chars = x
  | app r f a => f.range.start = r.start ∧ f.range.stop ≤ a.range.start ∧ a.range.stop = r.stop
  | abs r _ _ b | tabs r _ _ b => r.start < b.range.start ∧ b.range.stop = r.stop
  | tapp r t _ => t.range.start = r.start ∧ t.range.stop < r.stop
  | gap => False

/-! ## Leaves -/

theorem Token.StandsIn.chars_within {t : Token} {source : Text} (h : t.StandsIn source) :
    (source.within t.range).chars = t.text := by
  have hstart : (t.range.start - 1).toNat = t.place.offset := by
    show ((t.place.offset : Int) + 1 - 1).toNat = _
    omega
  have hstop : (t.range.stop - 1).toNat = t.stop := by
    show ((t.stop : Int) + 1 - 1).toNat = _
    omega
  rw [Text.chars_within, hstart, hstop, ← h.text_eq]

theorem literalValue_of_isDigit {d : Char} (hd : isDigit d = true) (ds : List Char) :
    literalValue (d :: ds) = Nat.ofDigitChars 10 (d :: ds) 0 := by
  have hminus : d ≠ '-' := (plain_of_word (.inr (.inr hd))).2.1
  unfold literalValue
  split
  · next heq => exact absurd (List.cons.inj heq).1 hminus
  · rfl

/-- A token of a literal is a literal of its value. -/
theorem Lexeme.isLiteral {cs rest : List Char} (h : Lexeme .int cs rest) :
    IsLiteral cs (literalValue cs) := by
  generalize hk : TokenKind.int = k at h
  cases h with
  | bigLambda | arrow | slash | minus => cases hk
  | lower => unfold lowerWordKind at hk; split at hk <;> cases hk
  | upper => unfold upperWordKind at hk; split at hk <;> cases hk
  | mark => unfold markKind at hk; split at hk <;> cases hk
  | @number d ds _ hd hds _ =>
    exact ⟨d :: ds, List.cons_ne_nil _ _, List.forall_mem_cons.mpr ⟨hd, hds⟩,
      .inl ⟨rfl, literalValue_of_isDigit hd ds⟩⟩
  | @negative d ds _ hd hds _ =>
    exact ⟨d :: ds, List.cons_ne_nil _ _, List.forall_mem_cons.mpr ⟨hd, hds⟩, .inr ⟨rfl, rfl⟩⟩

theorem Token.Fits.toInt_ofInt {t : Token} (h : t.Fits) (ht : t.kind = .int) :
    (Int32.ofInt (literalValue t.text)).toInt = literalValue t.text := by
  obtain ⟨hlower, hupper⟩ := h ht
  exact Int32.toInt_ofInt_of_le (by omega) (by omega)

/-! ## Nodes -/

variable {c : Calculus} {source : Text} {t u : Term}

theorem placedIn_of_readTerm (h : readTerm c source = .ok t) (hu : u ∈ t.parts) :
    u.PlacedIn source := by
  obtain ⟨hder, hfits, -⟩ := Tokens.term?_eq_ok.mp h
  obtain ⟨us, hus, hnode⟩ := hder.exists_node hu
  obtain ⟨hnests, -, -⟩ := (hder.nests (inOrder_scan _)).of_mem_parts hu
  cases hnests with
  | app _ _ hle => exact ⟨rfl, hle, rfl⟩
  | abs _ hlt => exact ⟨hlt, rfl⟩
  | tabs _ hlt => exact ⟨hlt, rfl⟩
  | tapp _ hlt => exact ⟨rfl, hlt⟩
  | int =>
    cases hnode with
    | @int v hk =>
      have hv := hus.subset List.mem_cons_self
      obtain ⟨rest, hlexeme⟩ := exists_lexeme_of_mem_scan hv
      rw [hk] at hlexeme
      rw [Term.PlacedIn, (standsIn_of_mem_scan hv).chars_within, (hfits v hv).toInt_ofInt hk]
      exact hlexeme.isLiteral
  | var =>
    cases hnode with
    | @var v hk =>
      have hv := hus.subset List.mem_cons_self
      rw [Term.PlacedIn, (standsIn_of_mem_scan hv).chars_within]
      rfl

/-- **Ranges nest in their source.**  Every node of a term that was read has a range in the
source that is not empty, and every part of it lies inside it.  An application starts with its
function and ends with its argument, which starts after the function; a function and a type
abstraction end with their body, which starts after them.  A name covers its own characters, and a
literal covers a decimal literal of its value. -/
theorem ranges_nest_in_source (h : readTerm c source = .ok t) (hu : u ∈ t.parts) :
    (1 ≤ u.range.start ∧ u.range.start < u.range.stop ∧ u.range.stop ≤ source.length + 1) ∧
      (∀ v ∈ u.parts, u.range.start ≤ v.range.start ∧ v.range.stop ≤ u.range.stop) ∧
      u.PlacedIn source := by
  obtain ⟨hder, -, -⟩ := Tokens.term?_eq_ok.mp h
  obtain ⟨hnests, -, -⟩ := (hder.nests (inOrder_scan _)).of_mem_parts hu
  refine ⟨readTerm_part_bounds h hu, fun v hv => ?_, placedIn_of_readTerm h hu⟩
  exact (hnests.of_mem_parts hv).2

/-- In `(f -007) x` the range of the whole starts after the parenthesis, where that of `f` does,
and the literal of -7 is `-007`. -/
theorem ranges_nest_in_source_literal :
    readTerm .systemF "(f -007) x" = .ok (.app ⟨2, 11⟩ (.app ⟨2, 8⟩ (.var ⟨2, 3⟩ "f")
        (.int ⟨4, 8⟩ (-7))) (.var ⟨10, 11⟩ "x")) ∧
      IsLiteral ['-', '0', '0', '7'] (-7) ∧
      Term.PlacedIn "(f -007) x" (.app ⟨2, 11⟩ (.app ⟨2, 8⟩ (.var ⟨2, 3⟩ "f")
        (.int ⟨4, 8⟩ (-7))) (.var ⟨10, 11⟩ "x")) := by
  have h : readTerm .systemF "(f -007) x" = .ok (.app ⟨2, 11⟩ (.app ⟨2, 8⟩ (.var ⟨2, 3⟩ "f")
      (.int ⟨4, 8⟩ (-7))) (.var ⟨10, 11⟩ "x")) := by rfl
  have hliteral := (ranges_nest_in_source (u := .int ⟨4, 8⟩ (-7)) h (by decide)).2.2
  exact ⟨h, hliteral, (ranges_nest_in_source h (Term.mem_parts_self _)).2.2⟩

end PolyLambda
