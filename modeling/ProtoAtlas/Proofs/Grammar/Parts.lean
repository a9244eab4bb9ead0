/-
# The parts of statements

One statement for each rule that reads a part of a statement: it takes tokens inside the
statement, and a name that it reads is written on them (`Rule.Takes`).

What a rule takes without expecting it has to be looked at: a label is no brace and no `;`
because of its text, and the signs and numbers of an option value make a literal that has an
answer.  Most faults are at the next token.  Three are not: a number that is none was just
taken, by `integer` and by `numberValue`, and an aggregate that breaks off stumbles over the
brace that starts it.
-/

import ProtoAtlas.Proofs.Grammar.Traced
import ProtoAtlas.Proofs.Literal.Answer

namespace ProtoAtlas

open Node (Laid Draft)

namespace Token

theorem IsPath.cons {t : Token} {v : List Token} (h : IsPath v)
    (kind : t.kind = .identifier ∨ t.kind = .dot) : IsPath (t :: v) := by
  obtain ⟨last, final, identifier⟩ := h.last
  refine ⟨fun t' ht' => ?_, last, ?_, identifier⟩
  · rcases List.mem_cons.1 ht' with rfl | ht'
    · exact kind
    · exact h.kinds t' ht'
  · rw [List.getLast?_cons, final]
    rfl

theorem isPath_single {t : Token} (h : t.kind = .identifier) : IsPath [t] where
  kinds := fun t' ht' => by
    rw [List.mem_singleton.1 ht']
    exact Or.inl h
  last := ⟨t, rfl, h⟩

theorem text_dot {t : Token} (kind : t.kind = .dot) (lexed : t.Lexed) :
    t.text = [CodePoint.ofChar '.'] :=
  lexed.mark (show ('.', t.kind) ∈ Segment.marks by rw [kind]; decide)

/-- A sign token is a sign. -/
theorem isSign_of_mem_text {t : Token} (lexed : t.Lexed) (h : t.kind = .minus ∨ t.kind = .plus) :
    ∀ s ∈ t.text, Segment.isSign s = true := by
  intro s mem
  rcases h with h | h
  · have text : t.text = ("-" : Text) := lexed.mark (m := '-') (by rw [lexeme_kind, h]; decide)
    rw [text] at mem
    rw [List.mem_singleton.1 mem]
    decide
  · have text : t.text = ("+" : Text) := lexed.mark (m := '+') (by rw [lexeme_kind, h]; decide)
    rw [text] at mem
    rw [List.mem_singleton.1 mem]
    decide

end Token

/-- A sign in front of a number makes a number literal. -/
theorem Literal.StartsLikeNumber.sign {t : Text} (h : Literal.StartsLikeNumber t) {sign : Text}
    (hs : ∀ s ∈ sign, Segment.isSign s = true) : Literal.StartsLikeNumber (sign ++ t) := by
  obtain ⟨signs, c, cs, rfl, signs', first⟩ := h
  refine ⟨sign ++ signs, c, cs, (List.append_assoc ..).symm, ?_, first⟩
  intro s mem
  exact (List.mem_append.1 mem).elim (hs s) (signs' s)

namespace Rule

/-! ### Names and numbers -/

/-- The identifiers of a path and the dots between them. -/
theorem Repeated.path {w : List Token} {parts : List Token}
    (h : Repeated (Behind .dot (TakesOne .identifier)) w parts) {t : Token}
    (identifier : t.kind = .identifier) :
    Token.IsPath (t :: w) ∧
      Text.join "." ((t :: parts).map Token.text) = (t :: w).flatMap Token.text := by
  induction h generalizing t with
  | stop => exact ⟨Token.isPath_single identifier, by simp [Text.join]⟩
  | @go v w a as here _ ih =>
    obtain ⟨dot, v, rfl, kind, lexed, one⟩ := here
    rw [one.only]
    obtain ⟨path, text⟩ := ih one.kind
    refine ⟨(path.cons (Or.inr kind)).cons (Or.inl identifier), ?_⟩
    calc Text.join "." ((t :: a :: as).map Token.text)
        = t.text ++ ([CodePoint.ofChar '.'] ++ Text.join "." ((a :: as).map Token.text)) := by
          rw [Text.join, List.map_cons, List.map_cons, List.intercalate_cons_cons,
            List.append_assoc]
          rfl
      _ = t.text ++ (dot.text ++ (a :: w).flatMap Token.text) := by
          rw [text, Token.text_dot kind lexed]

theorem takes_qualifiedName (what : Text) :
    Takes (qualifiedName what) fun w n => Spelled w (.path, n) :=
  fun o => .current <|
  (takes_accept (by decide)).seq fun v absolute front =>
  (takes_separatedBy (by decide) (takes_expect what (by decide))).seq fun w parts separated => by
    obtain ⟨u, t, v', more, rfl, rfl, one, rest⟩ := separated
    rw [one.only]
    obtain ⟨path, text⟩ := rest.path one.kind
    refine .previous (by simp) fun last final => .done fun r goes => ?_
    have head := goes.passes.head (by simp)
    refine ⟨_, List.infix_rfl, ⟨⟨o.current, head, rfl⟩, ⟨last, final, rfl⟩⟩, ?_⟩
    cases absolute with
    | true =>
      obtain ⟨dot, here⟩ := front
      rw [here.only]
      refine ⟨path.cons (Or.inr here.kind), ?_⟩
      show CodePoint.ofChar '.' :: Text.join "." _ = dot.text ++ (t :: v').flatMap Token.text
      rw [text, Token.text_dot here.kind here.lexed]
      rfl
    | false =>
      rw [if_neg (by decide)] at front
      rw [front]
      exact ⟨path, text⟩

theorem takes_simpleName (what : Text) :
    Takes (simpleName what) fun w n => Spelled w (.word, n) :=
  fun _ => (takes_expect what (by decide)).seq fun v t one => by
    rw [one.only]
    exact .done fun _ _ => spelled_word one.kind

theorem takes_integer (what : Text) : Takes (integer what) fun _ _ => True :=
  fun _ => (takes_accept (by decide)).seq fun v negative _ =>
  (takes_expect what (by decide)).seq fun u t one => by
    rw [one.only]
    exact .answer ⟨t, by simp, rfl⟩ nofun (Literal.integer_answered (one.lexed.number one.kind))
      fun n => .done fun _ _ => trivial

/-! ### Options -/

theorem takes_optionNamePart : Takes optionNamePart fun w _ => w ≠ [] :=
  fun _ => (takes_accept (by decide)).seq fun _ _ _ => .ite
    ((takes_qualifiedName _).seq fun _ _ name =>
      (takes_expect _ (by decide)).seq fun _ _ _ =>
      .done fun _ _ => by simp [name.ne_nil])
    ((takes_expect _ (by decide)).seq fun _ _ one => .done fun _ _ => by simp [one.only])

theorem takes_optionName : Takes optionName fun w n => Spelled w (.other, n) :=
  fun o => .current <|
  (takes_separatedBy (by decide) takes_optionNamePart).seq fun v _ separated => by
    have ne : [] ++ v ≠ [] := by
      obtain ⟨u, _, v', _, rfl, -, ne, -⟩ := separated
      simp [ne]
    exact .previous ne fun last final => .done fun r goes =>
      ⟨_, List.infix_rfl, ⟨⟨o.current, goes.passes.head ne, rfl⟩, ⟨last, final, rfl⟩⟩, trivial⟩

/-- An aggregate is taken through its closing brace.  One that breaks off stumbles over the
brace that starts it. -/
theorem takes_aggregate : Takes aggregate fun _ _ => True := by
  refine .of_runsAt fun r hr => ?_
  by_cases left : r.current.kind = .leftBrace
  · have brace := hr.passes_advance_current (by simp [left])
    have rest := fun n => r.advance.passes_advanceBy n
    have faults : ∀ n, (r.advance.advanceBy n).faults = r.faults :=
      fun n => (Reader.faults_advanceBy n r.advance).trans r.faults_advance
    have comments : ∀ n, (r.advance.advanceBy n).comments.Subperm r.comments :=
      fun n => ((r.advance.comments_advanceBy n).trans r.comments_advance).subperm
    have unended : ∀ ts, Token.Unended ([r.current] ++ ts) := fun ts =>
      ⟨by simp [left], Or.inl left⟩
    cases found : Token.blockLength? 0 r.advance.rest with
    | none =>
      refine .of_fault (run_aggregate_open left found) ⟨?_, faults _, comments _, nofun⟩
      refine ⟨_, brace.trans (rest _), unended _, Or.inr ⟨?_, ?_⟩, Or.inr ⟨r.current, ?_, rfl⟩⟩
      · rw [Reader.rest_advanceBy, List.drop_length]
      · rw [List.take_length, List.singleton_append, Token.openAfter_left left]
        exact Token.openAfter_add_isSome (Token.openAfter_of_blockLength?_eq_none found) 1
      · exact List.mem_cons_self
    | some n =>
      obtain ⟨v, c, more, split, rfl, right, closed⟩ := Token.split_of_blockLength? found
      have inside : r.advance.rest.take (v.length + 1) = v ++ [c] := by
        rw [split, List.take_length_add_append]
        rfl
      refine .of_ok (run_aggregate_closed left found) ⟨_, ⟨brace.trans (rest _), faults _, ?_,
        unended _, comments _⟩, trivial⟩
      rw [inside, List.singleton_append, Token.openAfter_left left, Token.openAfter_append,
        Token.openAfter_add closed 1]
      exact Token.openAfter_right right 0 []
  · exact .of_fault (run_aggregate_refused left)
      ((Reader.Goes.refl r).fault (Or.inl rfl) nofun)

section Values

variable {o r : Reader} {w : List Token}

/-- The value of a number is the value of the token just taken. -/
theorem follows_numberValue {literal : Text} (ne : w ≠ []) (h : Literal.StartsLikeNumber literal) :
    Follows o w [] (numberValue literal) (Onto o fun _ _ => True) := by
  refine .previous ne fun last final => ?_
  have mem := List.mem_of_getLast? final
  dsimp only
  split
  · next isReal =>
    exact .answer ⟨last, mem, rfl⟩ nofun (Literal.real_answered h isReal) fun _ =>
      .done fun _ _ => trivial
  · exact .answer ⟨last, mem, rfl⟩ nofun (Literal.integer_answered h) fun _ =>
      .done fun _ _ => trivial

theorem runsAt_signedValue (hr : r.Lexed) (h : r.current.kind = .minus ∨ r.current.kind = .plus) :
    RunsAt r r signedValue (Onto r fun _ _ => True) := by
  have ordinary : r.current.kind.Ordinary := by rcases h with h | h <;> rw [h] <;> decide
  refine .take hr (.refl r) rfl ordinary fun sign one ho s goes => ?_
  have signs := Token.isSign_of_mem_text one.lexed (one.kind ▸ h)
  refine .read (run_check .number s) ?_
  split_ifs with number
  · refine .take ho goes (of_decide_eq_true number) (by decide) fun t one' => ?_
    exact follows_numberValue (by simp) (.sign (one'.lexed.number one'.kind) signs)
  · refine .read (run_current s) ?_
    dsimp only
    split
    · next found =>
      have word : s.current.kind = .identifier := by
        by_contra other
        rw [if_neg other] at found
        cases found
      exact .take ho goes word (by decide) fun _ _ => .done fun _ _ => trivial
    · exact Follows.reject (by simp) ho s goes

theorem runsAt_namedValue (hr : r.Lexed)
    (h : r.current.kind = .identifier ∨ r.current.kind = .dot) :
    RunsAt r r (namedValue r.current) (Onto r fun _ _ => True) := by
  have ordinary : r.current.kind.Ordinary := by rcases h with h | h <;> rw [h] <;> decide
  have taken : ∀ v : OptionValue, RunsAt r r (do
      let _ ← advance
      return v) (Onto r fun _ _ => True) :=
    fun v => .take hr (.refl r) rfl ordinary fun _ _ => .done fun _ _ => trivial
  unfold namedValue
  split
  · exact taken _
  · split
    · exact taken _
    · split
      · exact taken _
      · exact ((takes_qualifiedName _).seq fun _ _ _ => .done fun _ _ => trivial) hr r (.refl r)

end Values

theorem takes_optionValue : Takes optionValue fun _ _ => True := by
  refine .of_runsAt fun r hr => .read (run_current r) ?_
  split
  · have parts : Takes (do
        if ← check .string then return some (Literal.stringValue (← advance).text)
        else return none) fun v (o : Option Text) =>
          (o = none → v = []) ∧ Each (fun _ _ => True) v o := by
      refine .of_runsAt fun s hs => .read (run_check .string s) ?_
      split_ifs with string
      · exact .take hs (.refl s) (of_decide_eq_true string) (by decide) fun _ _ =>
          .done fun _ _ => ⟨nofun, each_some trivial⟩
      · exact .of_ok rfl ⟨[], .refl s, fun _ => rfl, each_none⟩
    exact ((takes_many parts).seq fun _ _ _ => .done fun _ _ => trivial) hr r (.refl r)
  · exact (takes_aggregate.seq fun _ _ _ => .done fun _ _ => trivial) hr r (.refl r)
  · next minus => exact runsAt_signedValue hr (Or.inl minus)
  · next plus => exact runsAt_signedValue hr (Or.inr plus)
  · next number =>
    exact .take hr (.refl r) number (by decide) fun t one =>
      follows_numberValue (by simp) (one.lexed.number one.kind)
  · next word => exact runsAt_namedValue hr (Or.inl word)
  · next dot => exact runsAt_namedValue hr (Or.inr dot)
  · exact Follows.reject (by simp) hr r (.refl r)

/-- An option in brackets has no comment. -/
theorem takes_bracketOption :
    Takes bracketOption fun w o => Laid w o.node ∧ o.info.comments = none :=
  fun o => .current <|
  takes_optionName.seq fun _ _ name =>
  (takes_expect _ (by decide)).seq fun _ _ _ =>
  takes_optionValue.seq fun _ _ _ => by
    have ne := name.ne_nil
    exact .previous (by simp [ne]) fun last final => .done fun r goes =>
      ⟨((Draft.start.name name).pass _ |>.pass _).laid_plain (goes.passes.head (by simp [ne])) final
        rfl rfl rfl, rfl⟩

theorem takes_brackets : Takes brackets fun w os =>
    Row Laid w (os.map OptionDecl.node) ∧ ∀ o ∈ os, o.info.comments = none :=
  fun _ => (takes_expect _ (by decide)).seq fun _ _ _ =>
  (takes_separatedBy (by decide) takes_bracketOption).seq fun _ _ options =>
  (takes_expect _ (by decide)).seq fun _ _ _ => .done fun _ _ => by
    refine ⟨((Row.map (options.row.imp fun _ _ _ h => h.1)).skip _).pass _, fun o ho => ?_⟩
    obtain ⟨_, -, -, silent⟩ := options.row.of_mem ho
    exact silent

theorem takes_optionalBrackets : Takes optionalBrackets fun w os =>
    Row Laid w (os.map OptionDecl.node) ∧ ∀ o ∈ os, o.info.comments = none :=
  fun o => .look (looks_check _) fun _ => .ite (takes_brackets o) (.done fun _ _ => ⟨.nil _, nofun⟩)

/-! ### Labels and ranges -/

/-- A label is no brace and no `;`. -/
theorem inside_of_label {r : Reader} (hr : r.Lexed)
    (h : (Label.ofText? r.current.text).isSome = true) :
    r.current.IsPlain ∧ r.current.kind ≠ .semicolon := by
  have noMark : ∀ (m : Char) (kind : TokenKind), kind ≠ .endOfFile → (m, kind) ∈ Segment.marks →
      (Label.ofText? [CodePoint.ofChar m]).isSome = false → r.current.kind ≠ kind := by
    rintro m kind there mark none rfl
    rw [show r.current.text = _ from (hr.current_lexed there).mark mark, none] at h
    cases h
  exact ⟨⟨noMark '{' _ (by decide) (by decide) (by decide),
    noMark '}' _ (by decide) (by decide) (by decide)⟩,
    noMark ';' _ (by decide) (by decide) (by decide)⟩

/-- A label in front of a statement is passed. -/
theorem follows_passLabel {β : Type} {o : Reader} {label : Option Label} {f : Unit → Rule β}
    {A : Reader → β → Prop}
    (h : label.isSome = true → (Label.ofText? o.current.text).isSome = true)
    (hf : ∀ w, Follows o w [] (f ()) A) : Follows o [] [] (passLabel label >>= f) A := by
  intro ho r goes
  unfold passLabel
  split_ifs with found
  · have here := h found
    rw [← goes.passes.current_eq] at here
    obtain ⟨plain, inside⟩ := inside_of_label (goes.passes.lexed ho) here
    have next := hf _ ho _ (goes.trans (Reader.goes_advance plain inside))
    exact .of_run (y := f ()) (s := r.advance) rfl next
  · exact .of_run rfl (hf [] ho r goes)

theorem takes_numberRange (max : Int) : Takes (numberRange max) fun _ _ => True := by
  refine fun _ => (takes_integer _).seq fun _ _ _ ho r goes => .read (run_checkWord "to" r) ?_
  split
  · next range =>
    refine .take ho goes (Token.kind_of_isWord range) (by decide) fun _ _ ho s goes =>
      .read (run_checkWord "max" s) ?_
    split
    · next word =>
      exact .take ho goes (Token.kind_of_isWord word) (by decide) fun _ _ =>
        .done fun _ _ => trivial
    · exact ((takes_integer _).seq fun _ _ _ => .done fun _ _ => trivial) ho s goes
  · exact Follows.done (fun _ _ => trivial) ho r goes

theorem takes_reservation (max : Int) : Takes (reservation max) fun _ _ => True := by
  refine .of_runsAt fun r hr => .read (run_current r) ?_
  have range : RunsAt r r (do return Sum.inr (← numberRange max) : Rule (Text ⊕ NumberRange))
      (Onto r fun _ _ => True) :=
    ((takes_numberRange max).seq fun _ _ _ => .done fun _ _ => trivial) hr r (.refl r)
  split
  · next string =>
    exact .take hr (.refl r) string (by decide) fun _ _ => .done fun _ _ => trivial
  · next word => exact .take hr (.refl r) word (by decide) fun _ _ => .done fun _ _ => trivial
  · exact range
  · exact range
  · exact Follows.reject (by simp) hr r (.refl r)

/-! ### Words that may be missing -/

theorem takes_stream : Takes stream fun _ _ => True := by
  refine .of_runsAt fun r hr => .read (run_current r) (.read (run_peek 1 r) ?_)
  split
  · next h =>
    rw [Bool.and_eq_true] at h
    exact .take hr (.refl r) (Token.kind_of_isWord h.1) (by decide) fun _ _ =>
      .done fun _ _ => trivial
  · exact Follows.done (fun _ _ => trivial) hr r (.refl r)

theorem takes_importModifier : Takes importModifier fun _ _ => True := by
  refine .of_runsAt fun r hr => .read (run_checkWord _ r) ?_
  split
  · next word =>
    exact .take hr (.refl r) (Token.kind_of_isWord word) (by decide) fun _ _ =>
      .done fun _ _ => trivial
  · refine .read (run_checkWord _ r) ?_
    split
    · next word =>
      exact .take hr (.refl r) (Token.kind_of_isWord word) (by decide) fun _ _ =>
        .done fun _ _ => trivial
    · exact Follows.done (fun _ _ => trivial) hr r (.refl r)

end Rule
end ProtoAtlas
