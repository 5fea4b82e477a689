import PolyLambda.Proofs.Token.Continuation

/-!
# Tokens tile their source

Scanning is described once more, without the order in which it looks for tokens.
`Lexeme k cs rest` says which characters are a token of kind `k`, and what must not follow
them for that.  `Layout` says what may stand between tokens.  `Tiles rest p cs ts` puts the two
together: before `rest`, the characters `cs` are the tokens `ts` with layout before, between
and after them.

A source is tiled by the tokens that are scanned from it (`exists_tiles`), up to a comment that
nothing ends, and what is tiled is scanned as those tokens (`Tiles.tokens_scan`).  So the tokens
of a source are changed by changing its tiles: it can be cut at a token (`Tiles.split`), joined
(`Tiles.append`) and continued otherwise (`Tiles.replace`).  A token looks one character ahead
at most, so it stays the same where the next character does (`Lexeme.of_head`), where nothing
follows (`Lexeme.of_nil`), and, a lone `-` or `/` apart, wherever no word goes on
(`Lexeme.of_apart`), as before layout.  So a source that is cut in front of a token or after it
has the tokens up to there (`tokens_take_offset`, `tokens_take_stop`).
-/

namespace PolyLambda

/-! ## Layout -/

/-- White space and comments, each comment up to a newline. -/
inductive Layout : List Char → Prop where
  | nil : Layout []
  | space {c : Char} {cs : List Char} : Text.isSpace c = true → Layout cs → Layout (c :: cs)
  | comment {body cs : List Char} : '\n' ∉ body → Layout cs →
      Layout ('-' :: '-' :: (body ++ '\n' :: cs))

/-- A comment that runs to the end, or nothing. -/
def OpenComment (cs : List Char) : Prop := cs = [] ∨ ∃ body, cs = '-' :: '-' :: body ∧ '\n' ∉ body

theorem Layout.append {cs ds : List Char} (hcs : Layout cs) (hds : Layout ds) :
    Layout (cs ++ ds) := by
  induction hcs with
  | nil => exact hds
  | space hc _ ih => exact .space hc ih
  | comment hbody _ ih =>
    rw [List.cons_append, List.cons_append, List.append_assoc]
    exact .comment hbody ih

/-- What continues a word is no white space. -/
theorem isSpace_of_isWordChar {c : Char} (h : isWordChar c = true) : Text.isSpace c = false := by
  simp only [isWordChar, Bool.or_eq_true, beq_iff_eq] at h
  rcases h with (((hlower | hupper) | hdigit) | rfl) | rfl
  · exact (plain_of_word (.inl hlower)).1
  · exact (plain_of_word (.inr (.inl hupper))).1
  · exact (plain_of_word (.inr (.inr hdigit))).1
  · rfl
  · rfl

theorem apart_of_isSpace {c : Char} (h : Text.isSpace c = true) (rest : List Char) :
    Apart (c :: rest) := by
  show isWordChar c = false
  rw [Bool.eq_false_iff]
  intro hword
  rw [isSpace_of_isWordChar hword] at h
  cases h

/-- Layout starts with white space or with a comment, and neither continues a word. -/
theorem Layout.apart {cs : List Char} (h : Layout cs) (hcs : cs ≠ []) (rest : List Char) :
    Apart (cs ++ rest) := by
  cases h with
  | nil => exact absurd rfl hcs
  | space hc _ => exact apart_of_isSpace hc _
  | comment => exact rfl

/-- A comment is passed over up to the newline that ends it, or to the end. -/
theorem scanAfter_comment {body : List Char} (p : Place) (rest : List Char) (hbody : '\n' ∉ body)
    (hrest : rest.head?.all (· = '\n') = true) :
    scanAfter 0 p ('-' :: '-' :: (body ++ rest)) =
      scanAfter 0 (p.after ('-' :: '-' :: body)) rest := by
  have hline : lineLength ('-' :: (body ++ rest)) = ('-' :: body).length := by
    have hall : ∀ c ∈ '-' :: body, decide (c ≠ '\n') = true := by
      intro c hc
      rw [decide_eq_true_eq]
      rintro rfl
      rcases List.mem_cons.mp hc with h | h
      · cases h
      · exact hbody h
    rw [lineLength, ← List.cons_append, List.takeWhile_append_of_pos hall]
    cases rest with
    | nil => simp
    | cons c rest =>
      have hc : c = '\n' := of_decide_eq_true hrest
      simp [hc]
  have hskip := scanAfter_eq ('-' :: body).length (p.next '-') ('-' :: body ++ rest)
  rw [List.take_left, List.drop_left] at hskip
  calc scanAfter 0 p ('-' :: '-' :: (body ++ rest))
      = scanAfter (lineLength ('-' :: (body ++ rest))) (p.next '-') ('-' :: (body ++ rest)) := rfl
    _ = scanAfter 0 ((p.next '-').after ('-' :: body)) rest := by rw [hline]; exact hskip

/-- Layout is passed over. -/
theorem Layout.scanAfter_append {cs : List Char} (h : Layout cs) (p : Place) (rest : List Char) :
    scanAfter 0 p (cs ++ rest) = scanAfter 0 (p.after cs) rest := by
  induction h generalizing p with
  | nil => rfl
  | @space c cs hc _ ih =>
    rw [List.cons_append, scanAfter, if_pos hc]
    exact ih (p.next c)
  | @comment body cs hbody _ ih =>
    have hcomment := scanAfter_comment p ('\n' :: (cs ++ rest)) hbody rfl
    have hnewline : ∀ q, scanAfter 0 q ('\n' :: (cs ++ rest)) =
        scanAfter 0 ((q.next '\n').after cs) rest := fun q => ih (q.next '\n')
    rw [hnewline] at hcomment
    rw [List.cons_append, List.cons_append, List.append_assoc, List.cons_append, hcomment]
    congr 1
    simp [Place.after_append]

theorem Layout.tokens_scan {cs : List Char} (h : Layout cs) (p : Place) :
    (scanAfter 0 p cs).tokens = [] := by
  have hskip := h.scanAfter_append p []
  rw [List.append_nil] at hskip
  rw [hskip]
  rfl

theorem OpenComment.tokens_scan {cs : List Char} (h : OpenComment cs) (p : Place) :
    (scanAfter 0 p cs).tokens = [] := by
  rcases h with rfl | ⟨body, rfl, hbody⟩
  · rfl
  · have hcomment := scanAfter_comment p [] hbody rfl
    rw [List.append_nil] at hcomment
    rw [hcomment]
    rfl

/-- Layout goes on up to the end, to a comment that runs to the end, or to something that is
no layout. -/
theorem exists_layout (cs : List Char) : ∃ gap rest, cs = gap ++ rest ∧ Layout gap ∧
    (OpenComment rest ∨ ∃ c ds, rest = c :: ds ∧ Text.isSpace c = false ∧
      startsComment c ds = false) := by
  induction hn : cs.length using Nat.strongRecOn generalizing cs with
  | ind n ih =>
    cases cs with
    | nil => exact ⟨[], [], rfl, .nil, .inl (.inl rfl)⟩
    | cons c cs =>
      cases hspace : Text.isSpace c with
      | true =>
        obtain ⟨gap, rest, rfl, hgap, hrest⟩ := ih cs.length (hn ▸ Nat.lt_succ_self _) cs rfl
        exact ⟨c :: gap, rest, rfl, .space hspace hgap, hrest⟩
      | false =>
        cases hcomment : startsComment c cs with
        | false => exact ⟨[], c :: cs, rfl, .nil, .inr ⟨c, cs, rfl, hspace, hcomment⟩⟩
        | true =>
          rw [startsComment, Bool.and_eq_true, beq_iff_eq, beq_iff_eq,
            List.head?_eq_some_iff] at hcomment
          obtain ⟨rfl, cs, rfl⟩ := hcomment
          by_cases hnewline : '\n' ∈ cs
          · -- the comment ends at the first newline, and layout may go on after it
            obtain ⟨body, ds, rfl, hbody⟩ := List.eq_append_cons_of_mem hnewline
            have hlt : ds.length < n := by
              simp only [List.length_cons, List.length_append] at hn
              omega
            obtain ⟨gap, rest, rfl, hgap, hrest⟩ := ih ds.length hlt ds rfl
            refine ⟨'-' :: '-' :: (body ++ '\n' :: gap), rest, ?_, .comment hbody hgap, hrest⟩
            simp only [List.cons_append, List.append_assoc]
          · exact ⟨[], _, rfl, .nil, .inl (.inr ⟨cs, rfl, hnewline⟩)⟩

/-! ## Lexemes -/

/-- `Lexeme k cs rest`: before `rest`, the characters `cs` are one token of kind `k`. -/
inductive Lexeme : TokenKind → List Char → List Char → Prop where
  | bigLambda {rest : List Char} : Lexeme .bigLambda ['/', '\\'] rest
  | arrow {rest : List Char} : Lexeme .arrow ['-', '>'] rest
  | number {d : Char} {ds rest : List Char} : isDigit d = true → (∀ x ∈ ds, isDigit x = true) →
      rest.head?.any isDigit = false → Lexeme .int (d :: ds) rest
  | negative {d : Char} {ds rest : List Char} : isDigit d = true → (∀ x ∈ ds, isDigit x = true) →
      rest.head?.any isDigit = false → Lexeme .int ('-' :: d :: ds) rest
  | lower {c : Char} {w rest : List Char} : isLower c = true → (∀ x ∈ w, isWordChar x = true) →
      Apart rest → Lexeme (lowerWordKind (c :: w)) (c :: w) rest
  | upper {c : Char} {w rest : List Char} : isUpper c = true → (∀ x ∈ w, isWordChar x = true) →
      Apart rest → Lexeme (upperWordKind (c :: w)) (c :: w) rest
  | mark {c : Char} {rest : List Char} : isMark c = true → Lexeme (markKind c) [c] rest
  | slash {rest : List Char} : rest.head? ≠ some '\\' → Lexeme .illegal ['/'] rest
  | minus {rest : List Char} : rest.head? ≠ some '>' → rest.head? ≠ some '-' →
      rest.head?.any isDigit = false → Lexeme .illegal ['-'] rest

theorem takeWhile_append_head {q : Char → Bool} {w rest : List Char} (hw : ∀ c ∈ w, q c = true)
    (hrest : rest.head?.any q = false) : (w ++ rest).takeWhile q = w := by
  rw [List.takeWhile_append_of_pos hw]
  cases rest with
  | nil => simp
  | cons c rest =>
    have hc : q c = false := hrest
    simp [hc]

theorem head?_any_dropWhile (q : Char → Bool) (cs : List Char) :
    (cs.dropWhile q).head?.any q = false := by
  have h := List.head?_dropWhile_not q cs
  cases hhead : (cs.dropWhile q).head? with
  | none => rfl
  | some c =>
    rw [hhead] at h
    exact h

theorem apart_iff {cs : List Char} : Apart cs ↔ cs.head?.any isWordChar = false := by
  cases cs with
  | nil => exact ⟨fun _ => rfl, fun _ => trivial⟩
  | cons c cs => exact Iff.rfl

/-- Digits continue words, so what is apart from words does not start with one. -/
theorem Apart.head?_any_isDigit {cs : List Char} (h : Apart cs) :
    cs.head?.any isDigit = false := by
  cases cs with
  | nil => rfl
  | cons c cs =>
    show isDigit c = false
    rw [Bool.eq_false_iff]
    intro hdigit
    rw [Apart, isWordChar_of_isDigit hdigit] at h
    cases h

theorem take_takeWhile (q : Char → Bool) (cs : List Char) :
    cs.take (cs.takeWhile q).length = cs.takeWhile q := by
  have h : (cs.takeWhile q ++ cs.dropWhile q).take (cs.takeWhile q).length = cs.takeWhile q :=
    List.take_left
  rwa [List.takeWhile_append_dropWhile] at h

theorem drop_takeWhile (q : Char → Bool) (cs : List Char) :
    cs.drop (cs.takeWhile q).length = cs.dropWhile q := by
  have h : (cs.takeWhile q ++ cs.dropWhile q).drop (cs.takeWhile q).length = cs.dropWhile q :=
    List.drop_left
  rwa [List.takeWhile_append_dropWhile] at h

/-- What the scanner takes where no layout starts is a lexeme. -/
theorem lexeme_spec {c : Char} {cs : List Char} (hspace : Text.isSpace c = false)
    (hcomment : startsComment c cs = false) : Lexeme (lexeme c cs).1
      (c :: cs.take (lexeme c cs).2) (cs.drop (lexeme c cs).2) := by
  have hall : ∀ (q : Char → Bool) (cs : List Char), ∀ x ∈ cs.takeWhile q, q x = true :=
    fun q cs => List.all_eq_true.mp List.all_takeWhile
  unfold lexeme
  split
  · next h =>
    obtain ⟨rest, rfl⟩ := List.head?_eq_some_iff.mp h.2
    exact h.1 ▸ .bigLambda
  split
  · next h =>
    obtain ⟨rest, rfl⟩ := List.head?_eq_some_iff.mp h.2
    exact h.1 ▸ .arrow
  split
  · next hint =>
    simp only [take_takeWhile, drop_takeWhile]
    rcases hint with hd | ⟨rfl, hd⟩
    · exact .number hd (hall _ _) (head?_any_dropWhile _ _)
    · -- a sign is a token together with the digits after it
      cases cs with
      | nil => cases hd
      | cons d ds =>
        have hd : isDigit d = true := hd
        rw [List.takeWhile_cons_of_pos hd, List.dropWhile_cons_of_pos hd]
        exact .negative hd (hall _ _) (head?_any_dropWhile _ _)
  split
  · next hc =>
    simp only [take_takeWhile, drop_takeWhile]
    exact .lower hc (hall _ _) (apart_iff.mpr (head?_any_dropWhile _ _))
  split
  · next hc =>
    simp only [take_takeWhile, drop_takeWhile]
    exact .upper hc (hall _ _) (apart_iff.mpr (head?_any_dropWhile _ _))
  · next hslash harrow hint hlower hupper =>
    by_cases hc : c = '/'
    · subst hc
      exact .slash fun hhead => hslash ⟨rfl, hhead⟩
    by_cases hc' : c = '-'
    · subst hc'
      refine .minus (fun hhead => harrow ⟨rfl, hhead⟩) (fun hhead => ?_) ?_
      · have hhead : cs.head? = some '-' := hhead
        rw [startsComment, hhead] at hcomment
        cases hcomment
      · rw [Bool.eq_false_iff]
        exact fun hhead => hint (.inr ⟨rfl, hhead⟩)
    · refine .mark ?_
      have hdigit : ¬ isDigit c = true := fun h => hint (.inl h)
      simp [isMark, hspace, hc, hc', hlower, hupper, hdigit]

namespace Lexeme

variable {k : TokenKind} {cs rest : List Char}

/-- A lexeme is what the scanner takes where it stands. -/
theorem lexeme_eq (h : Lexeme k cs rest) : ∃ c w, cs = c :: w ∧ Text.isSpace c = false ∧
    startsComment c (w ++ rest) = false ∧ lexeme c (w ++ rest) = (k, w.length) := by
  cases h with
  | bigLambda => exact ⟨'/', ['\\'], rfl, rfl, rfl, rfl⟩
  | arrow => exact ⟨'-', ['>'], rfl, rfl, rfl, rfl⟩
  | @number d ds _ hd hds hrest =>
    obtain ⟨hspace, hminus, hslash⟩ := plain_of_word (.inr (.inr hd))
    refine ⟨d, ds, rfl, hspace, by simp [startsComment, hminus], ?_⟩
    simp only [lexeme, hminus, hslash, hd, takeWhile_append_head hds hrest, false_and, or_false,
      if_false, if_true]
  | @negative d ds _ hd hds hrest =>
    obtain ⟨-, hminus, -⟩ := plain_of_word (.inr (.inr hd))
    have hgreater : d ≠ '>' := by
      rintro rfl
      cases hd
    have htake := takeWhile_append_head (List.forall_mem_cons.mpr ⟨hd, hds⟩) hrest
    refine ⟨'-', d :: ds, rfl, rfl, by simp [startsComment, hminus], ?_⟩
    simp only [lexeme, htake]
    simp [hd, hgreater]
  | @lower c w _ hc hw hrest =>
    obtain ⟨hspace, hminus, -⟩ := plain_of_word (.inl hc)
    exact ⟨c, w, rfl, hspace, by simp [startsComment, hminus], lexeme_lower hc hw hrest⟩
  | @upper c w _ hc hw hrest =>
    obtain ⟨hspace, hminus, -⟩ := plain_of_word (.inr (.inl hc))
    exact ⟨c, w, rfl, hspace, by simp [startsComment, hminus], lexeme_upper hc hw hrest⟩
  | @mark c _ hc =>
    have hplain := hc
    simp only [isMark, Bool.and_eq_true, Bool.not_eq_true', bne_iff_ne] at hplain
    obtain ⟨⟨⟨⟨⟨hspace, hminus⟩, -⟩, -⟩, -⟩, -⟩ := hplain
    exact ⟨c, [], rfl, hspace, by simp [startsComment, hminus], lexeme_mark hc⟩
  | slash hrest =>
    have hlexeme : lexeme '/' rest = (.illegal, 0) := by
      simp [lexeme, hrest, show isDigit '/' = false from rfl, show isLower '/' = false from rfl,
        show isUpper '/' = false from rfl, markKind]
    exact ⟨'/', [], rfl, rfl, rfl, hlexeme⟩
  | minus hgreater hminus hdigit =>
    have hlexeme : lexeme '-' rest = (.illegal, 0) := by
      simp [lexeme, hgreater, hdigit, show isDigit '-' = false from rfl,
        show isLower '-' = false from rfl, show isUpper '-' = false from rfl, markKind]
    exact ⟨'-', [], rfl, rfl, by simp [startsComment, hminus], hlexeme⟩

theorem scanAfter_append (h : Lexeme k cs rest) (p : Place) :
    scanAfter 0 p (cs ++ rest) = (scanAfter 0 (p.after cs) rest).push ⟨k, cs, p⟩ := by
  obtain ⟨c, w, rfl, hspace, hcomment, hlexeme⟩ := h.lexeme_eq
  exact scanAfter_token p hspace hcomment hlexeme

theorem ne_nil (h : Lexeme k cs rest) : cs ≠ [] := by
  obtain ⟨c, w, rfl, -⟩ := h.lexeme_eq
  exact List.cons_ne_nil c w

/-- No lexeme ends a source. -/
theorem ne_finish (h : Lexeme k cs rest) : k ≠ .finish := by
  cases h with
  | bigLambda | arrow | number | negative | slash | minus => exact nofun
  | lower => unfold lowerWordKind; split <;> exact nofun
  | upper => unfold upperWordKind; split <;> exact nofun
  | mark => unfold markKind; split <;> exact nofun

/-- There is no white space in a lexeme. -/
theorem not_isSpace (h : Lexeme k cs rest) : ∀ c ∈ cs, Text.isSpace c = false := by
  have hdigits : ∀ {ds : List Char}, (∀ x ∈ ds, isDigit x = true) →
      ∀ x ∈ ds, Text.isSpace x = false :=
    fun hds x hx => isSpace_of_isWordChar (isWordChar_of_isDigit (hds x hx))
  cases h with
  | bigLambda | arrow => exact List.forall_mem_cons.mpr ⟨rfl, List.forall_mem_singleton.mpr rfl⟩
  | slash | minus => exact List.forall_mem_singleton.mpr rfl
  | number hd hds _ => exact hdigits (List.forall_mem_cons.mpr ⟨hd, hds⟩)
  | negative hd hds _ =>
    exact List.forall_mem_cons.mpr ⟨rfl, hdigits (List.forall_mem_cons.mpr ⟨hd, hds⟩)⟩
  | lower hc hw _ =>
    exact List.forall_mem_cons.mpr
      ⟨(plain_of_word (.inl hc)).1, fun x hx => isSpace_of_isWordChar (hw x hx)⟩
  | upper hc hw _ =>
    exact List.forall_mem_cons.mpr
      ⟨(plain_of_word (.inr (.inl hc))).1, fun x hx => isSpace_of_isWordChar (hw x hx)⟩
  | mark hc =>
    simp only [isMark, Bool.and_eq_true, Bool.not_eq_true'] at hc
    exact List.forall_mem_singleton.mpr hc.1.1.1.1.1

/-- A lexeme looks one character ahead. -/
theorem of_head {rest' : List Char} (h : Lexeme k cs rest) (hrest : rest'.head? = rest.head?) :
    Lexeme k cs rest' := by
  cases h with
  | bigLambda => exact .bigLambda
  | arrow => exact .arrow
  | number hd hds hdigit => exact .number hd hds (hrest ▸ hdigit)
  | negative hd hds hdigit => exact .negative hd hds (hrest ▸ hdigit)
  | lower hc hw hapart => exact .lower hc hw (apart_iff.mpr (hrest ▸ apart_iff.mp hapart))
  | upper hc hw hapart => exact .upper hc hw (apart_iff.mpr (hrest ▸ apart_iff.mp hapart))
  | mark hc => exact .mark hc
  | slash hhead => exact .slash (hrest ▸ hhead)
  | minus hgreater hminus hdigit =>
    exact .minus (hrest ▸ hgreater) (hrest ▸ hminus) (hrest ▸ hdigit)

theorem of_nil (h : Lexeme k cs rest) : Lexeme k cs [] := by
  cases h with
  | bigLambda => exact .bigLambda
  | arrow => exact .arrow
  | number hd hds _ => exact .number hd hds rfl
  | negative hd hds _ => exact .negative hd hds rfl
  | lower hc hw _ => exact .lower hc hw trivial
  | upper hc hw _ => exact .upper hc hw trivial
  | mark hc => exact .mark hc
  | slash _ => exact .slash nofun
  | minus _ _ _ => exact .minus nofun nofun rfl

/-- A lone `-` or `/` could become part of something else; every other lexeme only has to be
apart from words. -/
theorem of_apart {rest' : List Char} (h : Lexeme k cs rest) (hk : k ≠ .illegal)
    (hrest : Apart rest') : Lexeme k cs rest' := by
  cases h with
  | bigLambda => exact .bigLambda
  | arrow => exact .arrow
  | number hd hds _ => exact .number hd hds hrest.head?_any_isDigit
  | negative hd hds _ => exact .negative hd hds hrest.head?_any_isDigit
  | lower hc hw _ => exact .lower hc hw hrest
  | upper hc hw _ => exact .upper hc hw hrest
  | mark hc => exact .mark hc
  | slash | minus => exact absurd rfl hk

/-- Layout may come after a lexeme. -/
theorem of_layout {gap : List Char} (h : Lexeme k cs rest) (hk : k ≠ .illegal)
    (hgap : Layout gap) : Lexeme k cs (gap ++ rest) := by
  by_cases hnil : gap = []
  · rw [hnil]
    exact h
  · exact h.of_apart hk (hgap.apart hnil rest)

/-- White space may come after any lexeme, a lone `-` or `/` included. -/
theorem of_space {c : Char} (h : Lexeme k cs rest) (hc : Text.isSpace c = true)
    (rest' : List Char) : Lexeme k cs (c :: rest') := by
  have hapart := apart_of_isSpace hc rest'
  have hhead : ∀ {d : Char}, Text.isSpace d = false → some c ≠ some d := by
    rintro _ hd ⟨⟩
    exact Bool.false_ne_true (hd.symm.trans hc)
  cases h with
  | bigLambda => exact .bigLambda
  | arrow => exact .arrow
  | number hd hds _ => exact .number hd hds hapart.head?_any_isDigit
  | negative hd hds _ => exact .negative hd hds hapart.head?_any_isDigit
  | lower hd hw _ => exact .lower hd hw hapart
  | upper hd hw _ => exact .upper hd hw hapart
  | mark hmark => exact .mark hmark
  | slash => exact .slash (hhead rfl)
  | minus => exact .minus (hhead rfl) (hhead rfl) hapart.head?_any_isDigit

end Lexeme

/-! ## Tiles -/

/-- `Tiles rest p cs ts`: before `rest`, the characters `cs`, which start at the place `p`, are
the tokens `ts` with layout before, between and after them. -/
inductive Tiles (rest : List Char) : Place → List Char → List Token → Prop where
  | gap {p : Place} {gap : List Char} : Layout gap → Tiles rest p gap []
  | token {p : Place} {gap cs : List Char} {t : Token} {ts : List Token} :
      Layout gap → t.place = p.after gap → Lexeme t.kind t.text (cs ++ rest) →
      Tiles rest (t.place.after t.text) cs ts → Tiles rest p (gap ++ (t.text ++ cs)) (t :: ts)

namespace Tiles

variable {rest cs ds : List Char} {p : Place} {ts us : List Token}

/-- What is tiled is scanned as its tokens. -/
theorem tokens_scan (h : Tiles rest p cs ts) : (scanAfter 0 p (cs ++ rest)).tokens =
    ts ++ (scanAfter 0 (p.after cs) rest).tokens := by
  induction h with
  | gap hgap => rw [hgap.scanAfter_append, List.nil_append]
  | @token p gap cs t ts hgap hplace hlexeme _ ih =>
    have hplace' : p.after (gap ++ (t.text ++ cs)) = (t.place.after t.text).after cs := by
      rw [Place.after_append, Place.after_append, hplace]
    rw [List.append_assoc, hgap.scanAfter_append, ← hplace, List.append_assoc,
      hlexeme.scanAfter_append, hplace']
    exact congrArg (t :: ·) ih

/-- Layout may stand in front. -/
theorem layout_append {gap : List Char} (hgap : Layout gap)
    (h : Tiles rest (p.after gap) cs ts) : Tiles rest p (gap ++ cs) ts := by
  cases h with
  | gap hcs => exact .gap (hgap.append hcs)
  | token hgap' hplace hlexeme h =>
    rw [← Place.after_append] at hplace
    rw [← List.append_assoc]
    exact .token (hgap.append hgap') hplace hlexeme h

/-- What is tiled up to `ds`, and `ds` itself. -/
theorem append (h : Tiles (ds ++ rest) p cs ts) (hds : Tiles rest (p.after cs) ds us) :
    Tiles rest p (cs ++ ds) (ts ++ us) := by
  induction h with
  | gap hgap => exact hds.layout_append hgap
  | @token p gap cs t ts hgap hplace hlexeme _ ih =>
    rw [Place.after_append, ← hplace, Place.after_append] at hds
    rw [List.append_assoc, List.append_assoc]
    rw [← List.append_assoc] at hlexeme
    exact .token hgap hplace hlexeme (ih hds)

/-- What follows may be exchanged where the tokens allow it. -/
theorem replace {rest' : List Char} (h : Tiles rest p cs ts)
    (hrest : ∀ t ∈ ts, Lexeme t.kind t.text rest → Lexeme t.kind t.text rest') :
    Tiles rest' p cs ts := by
  induction h with
  | gap hgap => exact .gap hgap
  | @token p gap cs t ts hgap hplace hlexeme _ ih =>
    rw [List.forall_mem_cons] at hrest
    refine .token hgap hplace ?_ (ih hrest.2)
    -- only a token at the very end looks at what follows
    cases cs with
    | nil => exact hrest.1 hlexeme
    | cons c cs => exact hlexeme.of_head rfl

/-- What follows may be exchanged if it starts with the same characters, one at least. -/
theorem replace_after {ds back : List Char} (h : Tiles (ds ++ back) p cs ts) (hds : ds ≠ [])
    (back' : List Char) : Tiles (ds ++ back') p cs ts := by
  obtain ⟨d, ds, rfl⟩ := List.exists_cons_of_ne_nil hds
  exact h.replace fun _ _ hlexeme => hlexeme.of_head rfl

/-- After white space anything may follow. -/
theorem replace_of_space (h : Tiles rest p cs ts) (hspace : cs.getLast?.all Text.isSpace = true)
    (rest' : List Char) : Tiles rest' p cs ts := by
  induction h with
  | gap hgap => exact .gap hgap
  | @token p gap cs t ts hgap hplace hlexeme _ ih =>
    rw [← List.append_assoc] at hspace
    cases cs with
    | nil =>
      -- the last character is the last one of a token
      obtain ⟨c, hc⟩ := Option.isSome_iff_exists.mp
        (List.getLast?_isSome.mpr hlexeme.ne_nil)
      have hplain := hlexeme.not_isSpace c (List.mem_of_getLast? hc)
      rw [List.append_nil, List.getLast?_append, hc, Option.some_or, Option.all_some,
        hplain] at hspace
      cases hspace
    | cons c cs =>
      refine .token hgap hplace (hlexeme.of_head rfl) (ih ?_)
      rw [List.getLast?_append, List.getLast?_cons, Option.some_or] at hspace
      rwa [List.getLast?_cons]

/-- Tiles are cut in front of a token and after it. -/
theorem split {t : Token} (h : Tiles rest p cs (ts ++ t :: us)) :
    ∃ before after, cs = before ++ (t.text ++ after) ∧ t.place = p.after before ∧
      Tiles (t.text ++ (after ++ rest)) p before ts ∧ Lexeme t.kind t.text (after ++ rest) ∧
      Tiles rest (t.place.after t.text) after us := by
  induction ts generalizing p cs with
  | nil =>
    cases h with
    | token hgap hplace hlexeme h => exact ⟨_, _, rfl, hplace, .gap hgap, hlexeme, h⟩
  | cons u ts ih =>
    cases h with
    | @token _ gap cs _ _ hgap hplace hlexeme h =>
      obtain ⟨before, after, rfl, hplace', hbefore, hlexeme', hafter⟩ := ih h
      refine ⟨gap ++ (u.text ++ before), after, ?_, ?_, ?_, hlexeme', hafter⟩
      · simp only [List.append_assoc]
      · rw [hplace', Place.after_append, Place.after_append, hplace]
      · refine .token hgap hplace ?_ hbefore
        simpa only [List.append_assoc] using hlexeme

/-- A single token. -/
theorem single {t : Token} (h : Lexeme t.kind t.text rest) : Tiles rest t.place t.text [t] := by
  have htiles : Tiles rest t.place ([] ++ (t.text ++ [])) [t] := .token .nil rfl h (.gap .nil)
  rwa [List.append_nil] at htiles

end Tiles

/-! ## Whole sources -/

/-- **A source is tiled by its tokens**, up to a comment that nothing ends. -/
theorem exists_tiles (p : Place) (cs : List Char) : ∃ used rest, cs = used ++ rest ∧
    OpenComment rest ∧ Tiles rest p used (scanAfter 0 p cs).tokens := by
  induction hn : cs.length using Nat.strongRecOn generalizing p cs with
  | ind n ih =>
    obtain ⟨gap, rest, rfl, hgap, hrest⟩ := exists_layout cs
    rw [hgap.scanAfter_append]
    rcases hrest with hopen | ⟨c, ds, rfl, hspace, hcomment⟩
    · rw [hopen.tokens_scan]
      exact ⟨gap, rest, rfl, hopen, .gap hgap⟩
    · have hlexeme := lexeme_spec hspace hcomment
      have htoken := hlexeme.scanAfter_append (p.after gap)
      have hds : c :: ds.take (lexeme c ds).2 ++ ds.drop (lexeme c ds).2 = c :: ds :=
        congrArg (c :: ·) (List.take_append_drop _ _)
      have hlt : (ds.drop (lexeme c ds).2).length < n := by
        rw [List.length_append, List.length_cons] at hn
        rw [List.length_drop]
        omega
      obtain ⟨used, rest, hdrop, hopen, htiles⟩ := ih _ hlt
        ((p.after gap).after (c :: ds.take (lexeme c ds).2)) _ rfl
      rw [hds] at htoken
      rw [htoken, ← hds, hdrop]
      rw [hdrop] at hlexeme htiles
      refine ⟨gap ++ (c :: ds.take (lexeme c ds).2 ++ used), rest, ?_, hopen, ?_⟩
      · simp only [List.append_assoc]
      · exact .token (t := ⟨_, _, p.after gap⟩) hgap rfl hlexeme htiles

/-- What is tiled up to a comment that nothing ends is scanned as its tokens. -/
theorem Tiles.tokens_scan_all {rest cs : List Char} {p : Place} {ts : List Token}
    (h : Tiles rest p cs ts) (hrest : OpenComment rest) :
    (scanAfter 0 p (cs ++ rest)).tokens = ts := by
  rw [h.tokens_scan, hrest.tokens_scan, List.append_nil]

theorem Token.offset_of_place {t : Token} {cs : List Char} (h : t.place = Place.start.after cs) :
    t.place.offset = cs.length := by
  rw [h, Place.offset_after]
  exact Nat.zero_add _

section Cut

variable {cs : List Char} {before after : List Token} {t : Token}

/-- A source is made up of what is in front of a token, the token, and what is after it. -/
theorem exists_front (h : (scan cs).tokens = before ++ t :: after) : ∃ front back,
    cs = front ++ (t.text ++ back) ∧ t.place = Place.start.after front ∧
      Tiles (t.text ++ back) .start front before ∧ Lexeme t.kind t.text back := by
  obtain ⟨used, rest, rfl, -, htiles⟩ := exists_tiles .start cs
  rw [← scan, h] at htiles
  obtain ⟨front, back, rfl, hplace, hfront, hlexeme, -⟩ := htiles.split
  refine ⟨front, back ++ rest, ?_, hplace, hfront, hlexeme⟩
  simp only [List.append_assoc]

/-- Cut in front of a token, a source has the tokens before it. -/
theorem tokens_take_offset (h : (scan cs).tokens = before ++ t :: after) :
    (scan (cs.take t.place.offset)).tokens = before := by
  obtain ⟨front, back, rfl, hplace, hfront, -⟩ := exists_front h
  have htake : (front ++ (t.text ++ back)).take t.place.offset = front := by
    rw [t.offset_of_place hplace, List.take_left]
  have hcut : Tiles [] .start front before := hfront.replace fun _ _ hlexeme => hlexeme.of_nil
  have htokens := hcut.tokens_scan_all (.inl rfl)
  rwa [List.append_nil, ← scan, ← htake] at htokens

/-- Cut after a token, a source has the tokens up to it. -/
theorem tokens_take_stop (h : (scan cs).tokens = before ++ t :: after) :
    (scan (cs.take t.stop)).tokens = before ++ [t] := by
  obtain ⟨front, back, rfl, hplace, hfront, hlexeme⟩ := exists_front h
  have htake : (front ++ (t.text ++ back)).take t.stop = front ++ t.text := by
    rw [← List.append_assoc, Token.stop, t.offset_of_place hplace, ← List.length_append,
      List.take_left]
  have hfront' : Tiles (t.text ++ []) .start front before :=
    hfront.replace_after hlexeme.ne_nil []
  have hcut := hfront'.append (hplace ▸ Tiles.single hlexeme.of_nil)
  have htokens := hcut.tokens_scan_all (.inl rfl)
  rwa [List.append_nil, ← scan, ← htake] at htokens

end Cut

end PolyLambda
