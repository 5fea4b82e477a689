import PolyLambda.Proofs.Check
import PolyLambda.Proofs.Session
import PolyLambda.Proofs.Text.Trim

/-!
# Names that a session binds

A definition `n = t` is accepted when the text `n` *reads* as a variable, and then the text
`n` itself is bound.  A variable reads as itself, so it can be used once it is bound.  But
other texts read as variables too: `(x)`, or `x` before a comment, read as `x`.  These are
bound under a name that no source can spell, and they are answered as if they had not been
bound at all.

The reply to `:let n = t` tells what was bound (`Session.bound_of_printed`).  For this the
text of the definition is taken apart (`Command.ofInput_definition`,
`name_of_splitDefinition`), and the name in the reply is compared with the name that was
split off, which may have lost white space (`eq_of_printed_eq`).  What is left is how an
accepted name is answered when it is entered on its own (`Session.eval_variable`).
-/

namespace PolyLambda

/-! ## Texts that read as variables -/

/-- A variable reads as itself. -/
theorem readTerm_of_isVariable {x : Text} (hx : x.isVariable = true) (c : Calculus) :
    ∃ r, readTerm c x = .ok (.var r x) := by
  obtain ⟨u, hu, hsame⟩ := readTerm_render (c := c) (t := .var .nowhere x) hx fun _ => rfl
  have herase : u.erase = .var .nowhere x := of_decide_eq_true hsame
  cases u with
  | var r y =>
    obtain rfl : y = x := (Term.var.inj herase).2
    exact ⟨r, hu⟩
  | int | app | abs | tabs | tapp | gap => cases herase

/-- What reads as a variable does so in both calculi. -/
theorem readTerm_var_of_systemF {source x : Text} {r : Range}
    (h : readTerm .systemF source = .ok (.var r x)) (c : Calculus) :
    readTerm c source = .ok (.var r x) := by
  obtain ⟨hder, hfits, -⟩ := Tokens.term?_eq_ok.mp h
  exact Tokens.term?_eq_ok.mpr ⟨hder, hfits, fun _ => rfl⟩

/-- The token of a variable, in any number of parentheses, is an atom. -/
theorem Grammar.Derives.atom_of_var {ts : List Token} {r : Range} {x : Text}
    (h : Derives .term ts (.var r x)) : Derives .atom ts (.var r x) := by
  cases h with
  | ofApp happ =>
    cases happ with
    | ofAtom hatom => exact hatom

theorem scan_colon (cs : List Char) :
    (scan (':' :: cs)).tokens =
      ⟨.colon, [':'], .start⟩ :: (scanAfter 0 (Place.start.next ':') cs).tokens :=
  congrArg Tokens.tokens (scanAfter_token (w := []) .start rfl rfl (lexeme_mark rfl))

/-- What reads as a variable is no command. -/
theorem head?_ne_colon_of_readTerm {c : Calculus} {source x : Text} {r : Range}
    (h : readTerm c source = .ok (.var r x)) : source.head? ≠ some (.char ':') := by
  intro hhead
  obtain ⟨rest, rfl⟩ := List.head?_eq_some_iff.mp hhead
  obtain ⟨u, us, htokens, hstarts⟩ := (Tokens.term?_eq_ok.mp h).1.atom_of_var.head_atom
  obtain ⟨rfl, -⟩ := List.cons.inj ((scan_colon (Text.chars rest)).symm.trans htokens)
  cases hstarts

theorem isVariableName_iff {name : Text} :
    isVariableName name = true ↔ ∃ r x, readTerm .systemF name = .ok (.var r x) := by
  unfold isVariableName
  split
  · next r x h => exact ⟨fun _ => ⟨r, x, h⟩, fun _ => rfl⟩
  · next hno => exact ⟨nofun, fun ⟨r, x, h⟩ => absurd h (hno r x)⟩

/-! ## The parts of a definition -/

theorem Command.ofTrimmed_definition (rest : Text) :
    Command.ofTrimmed (Text.ofString ":let" ++ .char ' ' :: rest) = .bind rest.trim := by
  have hhead : List.head? (Text.ofString ":let" ++ .char ' ' :: rest) = some (.char ':') := rfl
  have hcut : Text.cut ' ' (Text.ofString ":let" ++ .char ' ' :: rest) =
      some (Text.ofString ":let", rest) := Text.cut_append (by decide)
  rw [ofTrimmed, if_pos hhead, hcut]
  rfl

/-- A definition is trimmed at both ends, but not around its equals sign. -/
theorem Command.ofInput_definition (before after : Text) :
    Command.ofInput (Text.ofString ":let " ++ (before ++ .char '=' :: after)) =
      .bind (before.trimStart ++ .char '=' :: after.trimEnd) := by
  have hkept : (Text.ofString ":let " ++ before).trimStart = Text.ofString ":let " ++ before :=
    Text.trimStart_append_cons [] _ rfl
  have htrim : (Text.ofString ":let " ++ (before ++ .char '=' :: after)).trim =
      Text.ofString ":let" ++ .char ' ' :: (before ++ .char '=' :: after.trimEnd) := by
    rw [← List.append_assoc, Text.trim_append_cons _ _ rfl, hkept, List.append_assoc]
    rfl
  rw [ofInput, htrim, ofTrimmed_definition, Text.trim_append_cons _ _ rfl, Text.trimEnd_trimEnd]

/-- The name is what stands before the equals sign. -/
theorem name_of_splitDefinition {before after name source : Text} (hbefore : .char '=' ∉ before)
    (h : splitDefinition (before.trimStart ++ .char '=' :: after) = some (name, source)) :
    before.trim = name ∧ name ≠ [] := by
  have hmem : .char '=' ∉ before.trimStart := fun hin =>
    hbefore ((List.dropWhile_sublist _).mem hin)
  rw [splitDefinition, Text.cut_append hmem] at h
  dsimp only at h
  rw [Text.trim_trimStart] at h
  split at h
  · cases h
  · next hblank =>
    obtain ⟨rfl, -⟩ := Prod.mk.inj (Option.some.inj h)
    rw [Bool.or_eq_true, not_or, List.isEmpty_iff] at hblank
    exact ⟨rfl, hblank.1⟩

/-- The text of a definition ends its name at the first equals sign, which is the one after
`n` or one in `n`. -/
theorem exists_definition_parts (n t : Text) :
    ∃ before after : Text, n ++ Text.ofString " = " ++ t = before ++ .char '=' :: after ∧
      .char '=' ∉ before ∧
      (before = n ++ [.char ' '] ∨ ∃ rest, n = before ++ .char '=' :: rest) := by
  have hequals : Text.ofString " = " = [.char ' ', .char '=', .char ' '] := rfl
  rw [hequals]
  by_cases hn : .char '=' ∈ n
  · obtain ⟨before, rest, rfl, hbefore⟩ := List.eq_append_cons_of_mem hn
    refine ⟨before, rest ++ ([.char ' ', .char '=', .char ' '] ++ t), ?_, hbefore, ?_⟩
    · simp
    · exact .inr ⟨rest, rfl⟩
  · refine ⟨n ++ [.char ' '], .char ' ' :: t, ?_, ?_, .inl rfl⟩
    · simp
    · simp [hn]

/-- **The printed name is the bound one.**  The bound name is what comes before the equals
sign, without the white space around it, and the reply with the name `n` starts with all of
it.  So nothing can have been trimmed off but the space that was put after `n`. -/
theorem eq_of_printed_eq {n name before printed printed' : Text} (htrim : before.trim = name)
    (hname : name ≠ [])
    (hbefore : before = n ++ [.char ' '] ∨ ∃ rest, n = before ++ .char '=' :: rest)
    (h : n ++ " : " ++ printed = name ++ " : " ++ printed') : n = name := by
  have hcolon : Text.ofString " : " = [.char ' ', .char ':', .char ' '] := rfl
  rw [hcolon, List.append_assoc, List.append_assoc] at h
  obtain ⟨m, more, hm, hprint⟩ : ∃ m more,
      (m = Glyph.char '=' ∨ m = .char ':' ∧ before = n ++ [.char ' ']) ∧
      n ++ ([.char ' ', .char ':', .char ' '] ++ printed) = before ++ m :: more := by
    rcases hbefore with hb | ⟨rest, hrest⟩
    · exact ⟨.char ':', _, .inr ⟨rfl, hb⟩, by rw [hb, List.append_assoc]; rfl⟩
    · exact ⟨.char '=', _, .inl rfl, by rw [hrest, List.append_assoc]; rfl⟩
  obtain ⟨left, right, hleft, hright, hparts⟩ := before.exists_trim
  obtain ⟨g, w, rfl⟩ := List.exists_cons_of_ne_nil hname
  rw [htrim] at hparts
  rw [hprint, hparts, List.append_assoc] at h
  have hleft : left = [] := Text.eq_nil_of_isBlank hleft h (Text.not_isSpace_of_trim htrim)
  rw [hleft, List.nil_append] at h hparts
  rw [List.append_assoc] at h
  have htail := List.append_cancel_left h
  -- after the name stand ` : ` in one text and `right`, which is blank, and `m` in the other
  cases right with
  | nil =>
    rcases hm with rfl | ⟨rfl, -⟩
    · cases htail
    · cases htail
  | cons d right =>
    obtain ⟨rfl, hmark⟩ := List.cons.inj htail
    rw [Text.isBlank, List.all_cons, Bool.and_eq_true_iff] at hright
    obtain rfl := Text.eq_nil_of_isBlank (g := .char ':') hright.2 hmark rfl
    rcases hm with rfl | ⟨rfl, hb⟩
    · cases hmark
    · exact List.append_cancel_right (hb.symm.trans hparts)

namespace Session

/-! ## Entering a name -/

/-- A text that reads as a variable is checked as that variable. -/
theorem eval_variable {name x : Text} {r : Range} (htrim : name.trim = name)
    (hread : readTerm .systemF name = .ok (.var r x)) (s : Session) :
    s.eval name = s.run (.check name) ∧ s.check name = checkTerm s.context (.var r x) := by
  have hno := head?_ne_colon_of_readTerm hread
  constructor
  · rw [eval, Command.ofInput, Command.ofTrimmed, htrim, if_neg hno]
  · exact check_of_readTerm (readTerm_var_of_systemF hread s.calculus)

/-- What a definition has bound when it is answered with its name and a type. -/
theorem bound_of_printed {s s' : Session} {n t printed : Text}
    (h : s.eval (":let " ++ n ++ " = " ++ t) = (.result (n ++ " : " ++ printed), s')) :
    n.trim = n ∧ isVariableName n = true ∧ ∃ a : Ty, printed = a.render ∧
      s' = { s with context := s.context.assign n a } := by
  obtain ⟨before, after, hparts, hequals, hbefore⟩ := exists_definition_parts n t
  have hinput : Text.ofString ":let " ++ n ++ Text.ofString " = " ++ t =
      Text.ofString ":let " ++ (before ++ .char '=' :: after) := by
    rw [← hparts, List.append_assoc, List.append_assoc, List.append_assoc]
  rw [hinput, eval, Command.ofInput_definition] at h
  obtain ⟨name, source, checked, hsplit, hname, -, hprinted, hbound⟩ :=
    bind_of_result (congrArg Prod.fst h)
  obtain ⟨htrim, hne⟩ := name_of_splitDefinition hequals hsplit
  obtain rfl := eq_of_printed_eq htrim hne hbefore hprinted
  refine ⟨htrim ▸ before.trim_trim, hname, checked.type, ?_, ?_⟩
  · exact List.append_cancel_left hprinted
  · exact (congrArg Prod.snd h).symm.trans hbound

/-- **When a bound name can be used.**  Let `:let n = t` be answered with `n : T`.  If `n` is
a variable, then `n` is answered with `T` in the session after it.  Any other accepted text,
such as a variable in parentheses, is answered just as it was before it was bound. -/
theorem bound_name_usable {s s' : Session} {n t T : Text}
    (h : s.eval (":let " ++ n ++ " = " ++ t) = (.result (n ++ " : " ++ T), s')) :
    (n.isVariable = true → s'.eval n = (.result T, s')) ∧
    (n.isVariable = false → (s'.eval n).1 = (s.eval n).1) := by
  obtain ⟨htrim, hname, a, rfl, hs'⟩ := bound_of_printed h
  obtain ⟨r, x, hread⟩ := isVariableName_iff.mp hname
  obtain ⟨heval, hcheck⟩ := eval_variable htrim hread s
  obtain ⟨heval', hcheck'⟩ := eval_variable htrim hread s'
  rw [heval, heval']
  constructor
  · intro hn
    obtain ⟨r', hself⟩ := readTerm_of_isVariable hn .systemF
    obtain ⟨-, rfl⟩ := Term.var.inj (Except.ok.inj (hread.symm.trans hself))
    have hok : s'.check x = .ok ⟨.var r x, a⟩ := by
      rw [hcheck', hs', checkTerm_eq_ok]
      exact ⟨rfl, infer_var_eq_ok.mpr (s.context.lookup?_assign_self x a)⟩
    rw [run, hok]
  · intro hn
    have hne : n ≠ x := by
      rintro rfl
      exact Bool.false_ne_true (hn.symm.trans (isPrintable_of_readTerm hread))
    have hsame : s'.check n = s.check n := by
      rw [hcheck', hcheck, hs', checkTerm, checkTerm, infer_var, infer_var,
        s.context.lookup?_assign_ne a hne]
    rw [run, run, hsame]
    split
    · rfl
    · rfl

/-- `f'` can be used once it is bound, also in a session in which `(f')` was bound before. -/
theorem bound_name_usable_primed :
    ∃ s', ((start .systemF).after [":let (f') = 1"]).eval ":let f' = λx: Int. x" =
        (.result "f' : Int -> Int", s') ∧
      s'.eval "f'" = (.result "Int -> Int", s') := by
  have h : ((start .systemF).after [":let (f') = 1"]).eval ":let f' = λx: Int. x" =
      (.result "f' : Int -> Int",
        ⟨[("f'", .arrow .int .int), ("(f')", .int)], .systemF⟩) := rfl
  exact ⟨_, h, (bound_name_usable (n := "f'") (t := "λx: Int. x") (T := "Int -> Int") h).1 rfl⟩

/-- **An accepted name may be of no use.**  `:let (x) = 1` is answered with `(x) : Int`, but
`(x)` is not defined after it. -/
theorem parenthesized_name_unusable :
    ¬ ∀ (c : Calculus) (inputs : List Text) (n t T : Text) (s' : Session),
      ((start c).after inputs).eval (":let " ++ n ++ " = " ++ t) =
          (.result (n ++ " : " ++ T), s') →
        (s'.eval n).1 = .result T := by
  intro h
  have hbound := h .systemF [] "(x)" "1" "Int" ((start .systemF).eval ":let (x) = 1").2 rfl
  cases hbound

end Session
end PolyLambda
