/-
# Printed declarations are read back

One lemma per rule: in front of the lexemes of a well-formed declaration the rule
reads that declaration, up to places, and nothing else.  A statement ends in `;` or
in a closing brace and reads in front of anything; a name, a value or a list of
options needs to know that what follows does not go on with it.

Most of the work is in the lookahead.  A word is a keyword only if the lexemes behind
it ask for it, and the types of fields avoid the words that would
(`Text.openingWords`), so each declaration is told from all others by its first three
lexemes.
-/

import ProtoAtlas.Proofs.Grammar.Reads
import ProtoAtlas.Proofs.Schema.Pieces

namespace ProtoAtlas

open Lexeme (ahead word mark pieces separated)

/-- Names that differ in their places only. -/
theorem Name.unplaced_eq {a b : Name} (h : a.text = b.text) : a.unplaced = b.unplaced := by
  rw [Name.unplaced, Name.unplaced, h]

namespace Rule

variable {d : Nat}

/-! ### The keywords and the ends of declarations -/

/-- A declaration starts with its keyword, and claims no comment. -/
theorem reads_opening {α : Type} (keyword : Text) {f : Token → Option Text → Rule α}
    {Q : α → Prop} {rest left : List Lexeme}
    (hf : ∀ first, Reads d (f first none) rest left Q) :
    Reads d (do
        let first ← Rule.keyword keyword
        let comment ← claimComment first
        f first comment)
      (word keyword :: rest) left Q :=
  (reads_keyword keyword).bind fun first hfirst =>
    (reads_claimComment hfirst.2).after (hf first)

/-- A statement ends with its semicolon. -/
theorem reads_ended {β : Type} (what : Text) {first : Token} {mk : NodeInfo → β} {Q : β → Prop}
    {rest : List Lexeme} (done : ∀ info, info.unplaced = NodeInfo.blank → Q (mk info)) :
    Reads d (do let _ ← expect .semicolon what; return mk (← close first none none))
      (mark .semicolon :: rest) rest Q := by
  refine (reads_expect what rfl).bind fun _ _ => ?_
  exact (reads_close (by simp)).bind fun info hinfo => Reads.pure (done info hinfo)

/-- A block ends with the closing brace of its body. -/
theorem reads_braced {α β : Type} {first : Token} {opening : Rule Token} {inner : Rule α}
    {mk : α → NodeInfo → β} {P : α → Prop} {Q : β → Prop} {l : Lexeme} {A B rest : List Lexeme}
    (opens : Reads d opening A B (Shows l)) (reads : Reads d inner B rest P)
    (done : ∀ a info, P a → info.unplaced = NodeInfo.blank → Q (mk a info)) :
    Reads d (do
        let brace ← opening
        let a ← inner
        return mk a (← close first none (some brace)))
      A rest Q := by
  refine opens.bind fun brace hbrace => ?_
  refine reads.bind fun a ha => ?_
  have bare : ∀ t ∈ some brace, t.Bare := by
    rintro _ ⟨⟩
    exact hbrace.2
  exact (reads_close bare).bind fun info hinfo => Reads.pure (done a info ha hinfo)

/-! ### Names and integers -/

theorem reads_simpleName (t what : Text) {rest : List Lexeme} :
    Reads d (simpleName what) (word t :: rest) rest fun n => n.text = t :=
  (reads_expect what rfl).bind fun _ h => Reads.pure h.text

/-- A block with a keyword and a name. -/
theorem reads_block {α β : Type} (keyword name what what' : Text) {inner : Name → Rule α}
    {mk : Name → α → NodeInfo → β} {P : α → Prop} {Q : β → Prop} {A rest : List Lexeme}
    (reads : ∀ n, Reads d (inner n) A rest P)
    (done : ∀ (n : Name) a info, n.text = name → P a → info.unplaced = NodeInfo.blank →
      Q (mk n a info)) :
    Reads d (do
        let first ← Rule.keyword keyword
        let comment ← claimComment first
        let n ← simpleName what
        let brace ← expect .leftBrace what'
        let a ← inner n
        return mk n a (← close first comment (some brace)))
      (word keyword :: word name :: mark .leftBrace :: A) rest Q := by
  refine reads_opening keyword fun first => ?_
  refine (reads_simpleName name what).bind fun n hn => ?_
  exact reads_braced (reads_expect what' rfl) (reads n) fun a info => done n a info hn

/-- Words with dots between them. -/
theorem reads_path (first : Text) (parts : List Text) (what : Text) {rest : List Lexeme}
    (stop : (ahead rest 0).kind ≠ .dot) :
    Reads d (separatedBy .dot (expect .identifier what))
      (separated .dot ((first :: parts).map fun part => [word part]) ++ rest) rest
      fun ts => ts.map (·.text) = first :: parts := by
  have each : ∀ part ∈ first :: parts, ∀ next : List Lexeme, True →
      Reads d (expect .identifier what) ([word part] ++ next) next fun t => t.text = id part :=
    fun part _ next _ => (reads_expect what rfl).imp fun _ h => h.text
  refine (reads_separatedBy (fun _ => True) (List.cons_ne_nil _ _) each trivial trivial
    stop).imp fun ts h => ?_
  rwa [List.map_id] at h

/-- A name is read in front of anything but a dot. -/
theorem reads_qualifiedName {P : Text → Prop} {t : Text} (h : t.IsReference P) (what : Text)
    {rest : List Lexeme} (stop : (ahead rest 0).kind ≠ .dot) :
    Reads d (qualifiedName what) (pieces t ++ rest) rest fun n => n.text = t := by
  refine reads_current.bind fun start _ => ?_
  rcases h with path | ⟨path, isPath, rfl⟩
  · obtain ⟨first, parts, -, -, rfl, written⟩ := path.pieces_eq
    have word : (ahead (pieces (Text.join "." (first :: parts)) ++ rest) 0).kind ≠ .dot := by
      rw [written]
      cases parts <;> exact TokenKind.noConfusion
    refine (reads_accept_not word).after ?_
    rw [written]
    refine (reads_path first parts what stop).bind fun ts hts => ?_
    refine reads_previous.bind fun _ _ => Reads.pure ?_
    rw [hts]
    rfl
  · obtain ⟨first, parts, -, -, rfl, written⟩ := isPath.pieces_eq
    rw [Text.pieces_dot, written]
    refine (reads_accept rfl).bind ?_
    rintro _ rfl
    refine (reads_path first parts what stop).bind fun ts hts => ?_
    refine reads_previous.bind fun _ _ => Reads.pure ?_
    rw [hts]
    rfl

/-- An integer is written as a literal that spells it, its sign included. -/
theorem reads_integer (n : Int) (what : Text) {rest : List Lexeme} :
    Reads d (integer what) (Lexeme.integer n :: rest) rest (· = n) := by
  refine (reads_accept_not TokenKind.noConfusion).after ?_
  refine (reads_expect what rfl).bind fun token h => ?_
  have text : token.text = Literal.ofInt n := h.text
  rw [text, Literal.integer_ofInt]
  exact Reads.pure rfl

/-! ### Options -/

/-- A part of an option name is read in front of anything. -/
theorem reads_optionNamePart {t : Text} (h : t.IsOptionPart) {rest : List Lexeme} :
    Reads d optionNamePart (pieces t ++ rest) rest (· = t) := by
  rcases h with identifier | ⟨name, reference, rfl⟩
  · rw [Lexeme.pieces_identifier identifier]
    refine (reads_accept_not TokenKind.noConfusion).after (Reads.ite_neg Bool.false_ne_true ?_)
    exact (reads_expect _ rfl).bind fun _ h => Reads.pure h.text
  · rw [Text.pieces_parenthesized, List.append_assoc, List.cons_append]
    refine (reads_accept rfl).bind ?_
    rintro _ rfl
    refine Reads.ite_pos rfl ?_
    refine (reads_qualifiedName reference _ TokenKind.noConfusion).bind fun extension htext => ?_
    refine (reads_expect _ rfl).bind fun _ _ => Reads.pure ?_
    rw [htext]

theorem reads_optionName {t : Text} (h : t.IsOptionName) {rest : List Lexeme}
    (stop : (ahead rest 0).kind ≠ .dot) :
    Reads d optionName (pieces t ++ rest) rest fun n => n.text = t := by
  obtain ⟨first, others, parts, rfl⟩ := h
  have each : ∀ part ∈ first :: others, ∀ next : List Lexeme, True →
      Reads d optionNamePart (pieces part ++ next) next fun t => id t = id part :=
    fun part hpart next _ => reads_optionNamePart (parts part hpart)
  rw [Lexeme.pieces_join]
  refine reads_current.bind fun _ _ => ?_
  refine (reads_separatedBy (fun _ => True) (List.cons_ne_nil _ _) each trivial trivial
    stop).bind fun ts hts => ?_
  rw [List.map_id, List.map_id] at hts
  refine reads_previous.bind fun _ _ => Reads.pure ?_
  rw [hts]

/-- The literal of an integer is no real literal, so its value is the integer. -/
theorem reads_numberValue_integer (n : Int) {rest : List Lexeme} :
    Reads d (numberValue (Literal.ofInt n)) rest rest (· = .integer n) := by
  refine reads_previous.bind fun _ _ => Reads.ite_neg ?_ ?_
  · rw [Literal.isRealLiteral_ofInt]
    exact Bool.false_ne_true
  · rw [Literal.integer_ofInt]
    exact Reads.pure rfl

/-- The literal of a finite number rounds to that number. -/
theorem reads_numberValue_real {x : Binary64} (finite : x.word < Binary64.infinityWord)
    {rest : List Lexeme} : Reads d (numberValue (Literal.ofReal x)) rest rest (· = .real x) := by
  refine reads_previous.bind fun _ _ => Reads.ite_pos (Literal.isRealLiteral_ofReal x) ?_
  rw [Literal.real_ofReal finite]
  exact Reads.pure rfl

/-- Strings that follow each other are one text, so no string may follow. -/
theorem reads_textValue (t : Text) {rest : List Lexeme} (stop : (ahead rest 0).kind ≠ .string) :
    Reads d optionValue (Lexeme.string t :: rest) rest (· = .text t) := by
  refine reads_current.bind fun token h => ?_
  rw [h.kind]
  let step : Rule (Option Text) := do
    if ← check .string then return some (Literal.stringValue (← advance).text) else return none
  have more : ∀ b ∈ [t], ∀ next, True →
      Reads d step ([Lexeme.string b] ++ next) next fun o => ∃ a, o = some a ∧ id a = id b := by
    intro b _ next _
    refine (reads_check .string).after (Reads.ite_pos rfl ?_)
    refine reads_advance.bind fun token h => Reads.pure ⟨b, ?_, rfl⟩
    have text : token.text = Literal.quote b := h.text
    rw [text, Literal.stringValue_quote]
  have last : Reads d step rest rest (· = none) := by
    refine (reads_check .string).after (Reads.ite_neg ?_ (Reads.pure rfl))
    rw [decide_eq_false stop]
    exact Bool.false_ne_true
  refine (reads_many (fun _ => True) more (fun _ _ _ => trivial) trivial last
    (by simp)).bind fun parts hparts => Reads.pure ?_
  rw [List.map_id, List.map_id] at hparts
  rw [hparts, List.flatten_singleton]

/-- A word that names a number. -/
theorem reads_namedValue {w : Text} {token : Token} (h : Shows (word w) token) {x : Binary64}
    (untrue : w ≠ ("true" : Text)) (unfalse : w ≠ ("false" : Text))
    (number : numberWord? false w = some x) {rest : List Lexeme} :
    Reads d (namedValue token) (word w :: rest) rest (· = .real x) := by
  have text : token.text = w := h.text
  have kind : token.kind = .identifier := h.kind
  refine Reads.ite_neg ?_ (Reads.ite_neg ?_ ?_)
  · rw [h.isWord, Lexeme.isWord_word, decide_eq_false untrue]
    exact Bool.false_ne_true
  · rw [h.isWord, Lexeme.isWord_word, decide_eq_false unfalse]
    exact Bool.false_ne_true
  · rw [if_pos kind, text, number]
    exact reads_advance.bind fun _ _ => Reads.pure rfl

theorem reads_negativeInfinity {rest : List Lexeme} :
    Reads d signedValue (mark .minus :: word "inf" :: rest) rest
      (· = .real (Binary64.infinity true)) := by
  refine reads_advance.bind fun sign hsign => ?_
  have minus : sign.kind = .minus := hsign.kind
  refine (reads_check .number).after (Reads.ite_neg Bool.false_ne_true ?_)
  refine reads_current.bind fun w hw => ?_
  have text : w.text = ("inf" : Text) := hw.text
  have kind : w.kind = .identifier := hw.kind
  have number : numberWord? true (Text.lower "inf") = some (Binary64.infinity true) := by decide
  dsimp only
  rw [if_pos kind, text, minus, decide_eq_true rfl, number]
  exact reads_advance.bind fun _ _ => Reads.pure rfl

/-- An option value is read in front of anything but a string. -/
theorem reads_optionValue {v : OptionValue} (ok : v.WellFormed) {rest : List Lexeme}
    (stop : (ahead rest 0).kind ≠ .string) :
    Reads d optionValue (v.printed ++ rest) rest (· = v) := by
  cases v with
  | text t => exact reads_textValue t stop
  | integer n =>
    refine reads_current.bind fun token h => ?_
    rw [h.kind]
    refine reads_advance.bind fun token h => ?_
    have text : token.text = Literal.ofInt n := h.text
    rw [text]
    exact reads_numberValue_integer n
  | flag value =>
    refine reads_current.bind fun token h => ?_
    rw [h.kind]
    cases value with
    | true =>
      refine Reads.ite_pos ?_ (reads_advance.bind fun _ _ => Reads.pure rfl)
      rw [h.isWord]
      exact Lexeme.isWord_word "true" "true"
    | false =>
      refine Reads.ite_neg ?_ (Reads.ite_pos ?_ (reads_advance.bind fun _ _ => Reads.pure rfl))
      · rw [h.isWord]
        exact ne_of_eq_of_ne (Lexeme.isWord_word "false" "true") (by decide)
      · rw [h.isWord]
        exact Lexeme.isWord_word "false" "false"
  | real x =>
    rw [OptionValue.printed]
    split_ifs with nan infinite negative
    · rw [ok nan]
      refine reads_current.bind fun token h => ?_
      rw [h.kind]
      exact reads_namedValue h (by decide) (by decide) (by decide)
    · rw [Binary64.eq_infinity infinite, negative]
      refine reads_current.bind fun token h => ?_
      rw [h.kind]
      exact reads_negativeInfinity
    · rw [Binary64.eq_infinity infinite, Bool.eq_false_iff.2 negative]
      refine reads_current.bind fun token h => ?_
      rw [h.kind]
      exact reads_namedValue h (by decide) (by decide) (by decide)
    · refine reads_current.bind fun token h => ?_
      rw [h.kind]
      refine reads_advance.bind fun token h => ?_
      have text : token.text = Literal.ofReal x := h.text
      rw [text]
      exact reads_numberValue_real (Binary64.word_lt_infinityWord nan infinite)

/-- The value of an option behind its name. -/
theorem reads_assigned {v : OptionValue} (ok : v.WellFormed) (what : Text) {rest : List Lexeme}
    (stop : (ahead rest 0).kind ≠ .string) {α : Type} {f : OptionValue → Rule α}
    {left : List Lexeme} {Q : α → Prop} (hf : Reads d (f v) rest left Q) :
    Reads d (expect .equals what >>= fun _ => optionValue >>= f)
      (mark .equals :: (v.printed ++ rest)) left Q := by
  refine (reads_expect what rfl).bind fun _ _ => ?_
  refine (reads_optionValue ok stop).bind ?_
  rintro _ rfl
  exact hf

/-- An option statement is read in front of anything. -/
theorem reads_optionStatement {o : OptionDecl} (ok : o.WellFormed) {rest : List Lexeme} :
    Reads d optionStatement (o.printed ++ rest) rest
      fun a => a.reset NodeInfo.unplaced = o.reset NodeInfo.bare := by
  rw [OptionDecl.printed, OptionDecl.assignment]
  simp only [List.append_assoc, List.cons_append, List.nil_append]
  refine reads_opening "option" fun first => ?_
  refine (reads_optionName ok.name TokenKind.noConfusion).bind fun name hname => ?_
  refine reads_assigned ok.value _ TokenKind.noConfusion ?_
  refine reads_ended _ fun info hinfo => ?_
  rw [OptionDecl.reset, OptionDecl.reset, Name.unplaced_eq hname, hinfo, NodeInfo.bare]

/-- An option in brackets is read in front of anything but a string. -/
theorem reads_bracketOption {o : OptionDecl} (ok : o.WellFormed) {rest : List Lexeme}
    (stop : (ahead rest 0).kind ≠ .string) :
    Reads d bracketOption (o.assignment ++ rest) rest
      fun a => a.reset NodeInfo.unplaced = o.reset NodeInfo.bare := by
  rw [OptionDecl.assignment, List.append_assoc, List.cons_append]
  refine reads_current.bind fun _ _ => ?_
  refine (reads_optionName ok.name TokenKind.noConfusion).bind fun name hname => ?_
  refine reads_assigned ok.value _ stop ?_
  refine reads_previous.bind fun _ _ => Reads.pure ?_
  rw [OptionDecl.reset, OptionDecl.reset, Name.unplaced_eq hname]
  rfl

/-- Options in brackets are read in front of anything but a bracket. -/
theorem reads_optionalBrackets {options : List OptionDecl} (ok : ∀ o ∈ options, o.WellFormed)
    {rest : List Lexeme} (stop : (ahead rest 0).kind ≠ .leftBracket) :
    Reads d optionalBrackets (OptionDecl.bracketed options ++ rest) rest
      fun as => as.map (·.reset NodeInfo.unplaced) = options.map (·.reset NodeInfo.bare) := by
  unfold OptionDecl.bracketed
  split_ifs with empty
  · refine (reads_check .leftBracket).after (Reads.ite_neg ?_ (Reads.pure ?_))
    · rw [List.nil_append, decide_eq_false stop]
      exact Bool.false_ne_true
    · rw [List.isEmpty_iff.1 empty]
      rfl
  · simp only [List.append_assoc, List.cons_append, List.nil_append]
    refine (reads_check .leftBracket).after (Reads.ite_pos rfl ?_)
    refine (reads_expect _ rfl).bind fun _ _ => ?_
    have some : options ≠ [] := fun h => empty (List.isEmpty_iff.2 h)
    refine (reads_separatedBy (· ≠ .string) some
      (fun o ho next stop => reads_bracketOption (ok o ho) stop) TokenKind.noConfusion
      TokenKind.noConfusion TokenKind.noConfusion).bind fun as has => ?_
    exact (reads_expect _ rfl).bind fun _ _ => Reads.pure has

/-! ### Fields -/

/-- The number and the options of a field, behind its name. -/
theorem reads_numbered (number : Int) {options : List OptionDecl}
    (ok : ∀ o ∈ options, o.WellFormed) (what what' : Text) {rest : List Lexeme}
    (stop : (ahead rest 0).kind ≠ .leftBracket) {α : Type} {f : Int → List OptionDecl → Rule α}
    {left : List Lexeme} {Q : α → Prop}
    (hf : ∀ os, os.map (·.reset NodeInfo.unplaced) = options.map (·.reset NodeInfo.bare) →
      Reads d (f number os) rest left Q) :
    Reads d (expect .equals what >>= fun _ => integer what' >>= fun n => optionalBrackets >>= f n)
      (mark .equals :: Lexeme.integer number :: (OptionDecl.bracketed options ++ rest)) left Q := by
  refine (reads_expect what rfl).bind fun _ _ => ?_
  refine (reads_integer number what').bind ?_
  rintro _ rfl
  exact (reads_optionalBrackets ok stop).bind hf

/-- The labels are among the opening words. -/
theorem ofText?_eq_none {w : Text} (h : w ∉ Text.openingWords) : Label.ofText? w = none := by
  have listed : ∀ label : Label, label.word ∈ Text.openingWords := by
    intro label
    cases label <;> decide
  have other : ∀ label : Label, w ≠ label.word := fun label same => h (same ▸ listed label)
  rw [Label.ofText?, if_neg (other _), if_neg (other _), if_neg (other _)]

theorem ofText?_group : Label.ofText? "group" = none := by
  decide

theorem ofText?_word (label : Label) : Label.ofText? label.word = some label := by
  cases label <;> decide

/-- What a type starts with is no label. -/
theorem ofText?_type {t : Text} (h : t.IsType) (rest : List Lexeme) :
    Label.ofText? (ahead (pieces t ++ rest) 0).text = none := by
  obtain ⟨l, ls, written, dot | ⟨first, free, same⟩⟩ := h.pieces_cons
  · rw [written, dot]
    exact (by decide : Label.ofText? (mark .dot).text = none)
  · rw [written, same]
    exact ofText?_eq_none free

/-- Behind a word and a type stands no `=`, if none follows the type. -/
theorem kind_ahead_type {t : Text} (h : t.IsType) (first next : Lexeme)
    (hnext : next.kind ≠ .equals) (rest : List Lexeme) :
    (ahead (first :: (pieces t ++ next :: rest)) 2).kind ≠ .equals := by
  obtain ⟨l, ls, written, -⟩ := h.pieces_cons
  have within : 1 < (pieces t ++ [next]).length := by
    rw [written]
    simp
  have mem := Lexeme.ahead_append_mem within rest
  rw [List.append_assoc, List.singleton_append] at mem
  rw [Lexeme.ahead_cons_succ]
  rcases List.mem_append.1 mem with mem | mem
  · rcases h.kind_of_mem mem with kind | kind
    · rw [kind]
      exact TokenKind.noConfusion
    · rw [kind]
      exact TokenKind.noConfusion
  · rwa [List.mem_singleton.1 mem]

/-- A label is passed where one was found. -/
theorem reads_passLabel (label : Option Label) {rest : List Lexeme} :
    Reads d (passLabel label) (Label.printed label ++ rest) rest fun _ => True := by
  cases label with
  | none => exact Reads.pure trivial
  | some label => exact reads_advance.bind fun _ _ => Reads.pure trivial

/-- **The label of a field is found**: a word is one because the `=` is further away,
and without a label the type starts with none. -/
theorem label_of_shows {label : Option Label} {type name : Text} (h : type.IsType)
    {rest : List Lexeme} {first second : Token}
    (hfirst : Shows (ahead (Label.printed label ++ (pieces type ++ word name :: rest)) 0) first)
    (hsecond : Shows (ahead (Label.printed label ++ (pieces type ++ word name :: rest)) 2) second) :
    (if second.kind = .equals then none else Label.ofText? first.text) = label := by
  cases label with
  | none =>
    have unlabelled : Label.ofText? first.text = none := by
      rw [hfirst.text]
      exact ofText?_type h _
    rw [unlabelled, ite_self]
  | some label =>
    have far : second.kind ≠ .equals := by
      rw [hsecond.kind]
      exact kind_ahead_type h (word label.word) (word name) TokenKind.noConfusion rest
    rw [if_neg far, hfirst.text]
    exact ofText?_word label

/-- **A field is read back**, with or without a label. -/
theorem reads_field {x : Field} (ok : x.WellFormed) {rest : List Lexeme} :
    Reads d field (x.printed ++ rest) rest
      fun a => a.reset NodeInfo.unplaced = x.reset NodeInfo.bare := by
  rw [Field.printed, Field.numbered]
  simp only [List.append_assoc, List.cons_append, List.nil_append]
  refine reads_current.bind fun first hfirst => ?_
  refine (reads_peek 2).bind fun second hsecond => ?_
  -- Both lookaheads are settled in front of the field, before the label is passed.
  have found := label_of_shows ok.type hfirst hsecond
  dsimp only
  rw [found]
  refine (reads_passLabel x.label).bind fun _ _ => ?_
  refine (reads_qualifiedName ok.type _ TokenKind.noConfusion).bind fun type htype => ?_
  refine (reads_claimComment hfirst.2).after ?_
  refine (reads_simpleName _ _).bind fun name hname => ?_
  refine reads_numbered x.number ok.options _ _ TokenKind.noConfusion fun os hos => ?_
  refine reads_ended _ fun info hinfo => ?_
  rw [Field.reset, Field.reset, Name.unplaced_eq hname, Name.unplaced_eq htype, hos, hinfo,
    NodeInfo.bare]

theorem reads_mapField {x : MapField} (ok : x.WellFormed) {rest : List Lexeme} :
    Reads d mapField (x.printed ++ rest) rest
      fun a => a.reset NodeInfo.unplaced = x.reset NodeInfo.bare := by
  rw [MapField.printed, Field.numbered]
  simp only [List.append_assoc, List.cons_append, List.nil_append]
  refine reads_opening "map" fun first => ?_
  refine (reads_expect _ rfl).bind fun _ _ => ?_
  refine (reads_simpleName _ _).bind fun key hkey => ?_
  refine (reads_expect _ rfl).bind fun _ _ => ?_
  refine (reads_qualifiedName ok.value _ TokenKind.noConfusion).bind fun value hvalue => ?_
  refine (reads_expect _ rfl).bind fun _ _ => ?_
  refine (reads_simpleName _ _).bind fun name hname => ?_
  refine reads_numbered x.number ok.options _ _ TokenKind.noConfusion fun os hos => ?_
  refine reads_ended _ fun info hinfo => ?_
  rw [MapField.reset, MapField.reset, Name.unplaced_eq hname, Name.unplaced_eq hkey,
    Name.unplaced_eq hvalue, hos, hinfo, NodeInfo.bare]

/-! ### Ranges -/

/-- A range is read in front of anything but a word. -/
theorem reads_numberRange {max : Int} {r : NumberRange} (ok : r.WellFormed max)
    {rest : List Lexeme} (stop : (ahead rest 0).kind ≠ .identifier) :
    Reads d (numberRange max) (r.printed ++ rest) rest (· = r) := by
  obtain ⟨first, last, toMax⟩ := r
  unfold NumberRange.printed
  split_ifs with greatest single
  all_goals simp only [List.cons_append, List.nil_append]
  · obtain rfl : last = max := ok greatest
    obtain rfl : toMax = true := greatest
    refine (reads_integer first _).bind ?_
    rintro _ rfl
    refine (reads_checkWord_same "to").after (Reads.ite_pos rfl ?_)
    refine reads_advance.bind fun _ _ => ?_
    refine (reads_checkWord_same "max").after (Reads.ite_pos rfl ?_)
    exact reads_advance.bind fun _ _ => Reads.pure rfl
  · obtain rfl : first = last := single
    obtain rfl : toMax = false := Bool.eq_false_iff.2 greatest
    refine (reads_integer first _).bind ?_
    rintro _ rfl
    refine (reads_checkWord_other (Lexeme.isWord_of_kind stop _)).after ?_
    exact Reads.ite_neg Bool.false_ne_true (Reads.pure rfl)
  · obtain rfl : toMax = false := Bool.eq_false_iff.2 greatest
    refine (reads_integer first _).bind ?_
    rintro _ rfl
    refine (reads_checkWord_same "to").after (Reads.ite_pos rfl ?_)
    refine reads_advance.bind fun _ _ => ?_
    refine (reads_checkWord_other rfl).after (Reads.ite_neg Bool.false_ne_true ?_)
    refine (reads_integer last _).bind ?_
    rintro _ rfl
    exact Reads.pure rfl

/-- A reserved name is written in quotes. -/
theorem reads_reservation_name (max : Int) (n : Text) {rest : List Lexeme} :
    Reads d (reservation max) (Lexeme.string n :: rest) rest (· = .inl n) := by
  refine reads_current.bind fun token h => ?_
  have text : token.text = Literal.quote n := h.text
  rw [h.kind, text]
  refine reads_advance.bind fun _ _ => Reads.pure ?_
  rw [Literal.stringValue_quote]

/-- A range starts with a number. -/
theorem printed_range_cons (r : NumberRange) :
    ∃ ls, r.printed = Lexeme.integer r.first :: ls := by
  unfold NumberRange.printed
  split_ifs
  all_goals exact ⟨_, rfl⟩

theorem reads_reservation_range {max : Int} {r : NumberRange} (ok : r.WellFormed max)
    {rest : List Lexeme} (stop : (ahead rest 0).kind ≠ .identifier) :
    Reads d (reservation max) (r.printed ++ rest) rest (· = .inr r) := by
  refine reads_current.bind fun token h => ?_
  obtain ⟨ls, written⟩ := printed_range_cons r
  have kind : token.kind = .number := by
    rw [h.kind, written]
    rfl
  rw [kind]
  refine (reads_numberRange ok stop).bind ?_
  rintro _ rfl
  exact Reads.pure rfl

/-- A reserved statement is read back, its ranges and its names apart. -/
theorem reads_reserved {max : Int} {r : Reserved} (ok : r.WellFormed max) {rest : List Lexeme} :
    Reads d (reserved max) (r.printed ++ rest) rest
      fun a => a.reset NodeInfo.unplaced = r.reset NodeInfo.bare := by
  -- The rule reads one list of both, so the tree is spelled from one list of both.
  let parts : List (Text ⊕ NumberRange) := r.ranges.map .inr ++ r.names.map .inl
  let spell : Text ⊕ NumberRange → List Lexeme :=
    Sum.elim (fun n => [Lexeme.string n]) NumberRange.printed
  have spelled : (r.ranges.map (·.printed) ++ r.names.map fun n => [Lexeme.string n]) =
      parts.map spell := by
    rw [List.map_append, List.map_map, List.map_map]
    rfl
  have some : parts ≠ [] := by
    simpa [parts, List.append_eq_nil_iff, or_iff_not_imp_left] using ok.some
  have each : ∀ part ∈ parts, ∀ next, (ahead next 0).kind ≠ .identifier →
      Reads d (reservation max) (spell part ++ next) next fun a => id a = id part := by
    intro part hpart next stop
    rcases List.mem_append.1 hpart with mem | mem
    · obtain ⟨range, listed, rfl⟩ := List.mem_map.1 mem
      exact reads_reservation_range (ok.ranges range listed) stop
    · obtain ⟨name, -, rfl⟩ := List.mem_map.1 mem
      exact reads_reservation_name max name
  rw [Reserved.printed, spelled]
  simp only [List.append_assoc, List.cons_append, List.nil_append]
  refine reads_opening "reserved" fun first => ?_
  refine (reads_separatedBy (· ≠ .identifier) some each TokenKind.noConfusion
    TokenKind.noConfusion TokenKind.noConfusion).bind fun found hfound => ?_
  rw [List.map_id, List.map_id] at hfound
  refine reads_ended _ fun info hinfo => ?_
  rw [Reserved.reset, Reserved.reset, hinfo, NodeInfo.bare, hfound]
  simp [parts, List.filterMap_map, Function.comp_def]

/-- Options in brackets start with a bracket, and where there are none what follows
comes first. -/
theorem ahead_bracketed (P : TokenKind → Prop) (options : List OptionDecl) {rest : List Lexeme}
    (bracket : P .leftBracket) (last : P (ahead rest 0).kind) :
    P (ahead (OptionDecl.bracketed options ++ rest) 0).kind := by
  unfold OptionDecl.bracketed
  split_ifs
  · exact last
  · exact bracket

/-- The ranges of an extensions statement end at its brackets or its semicolon. -/
theorem reads_extensions {e : Extensions} (ok : e.WellFormed) {rest : List Lexeme} :
    Reads d extensions (e.printed ++ rest) rest
      fun a => a.reset NodeInfo.unplaced = e.reset NodeInfo.bare := by
  have each : ∀ r ∈ e.ranges, ∀ next, (ahead next 0).kind ≠ .identifier →
      Reads d (numberRange maxFieldNumber) (r.printed ++ next) next fun a => id a = id r :=
    fun r hr next stop => reads_numberRange (ok.ranges r hr) stop
  rw [Extensions.printed]
  simp only [List.append_assoc, List.cons_append, List.nil_append]
  refine reads_opening "extensions" fun first => ?_
  refine (reads_separatedBy (· ≠ .identifier) ok.some each TokenKind.noConfusion
    (ahead_bracketed (· ≠ .identifier) e.options TokenKind.noConfusion TokenKind.noConfusion)
    (ahead_bracketed (· ≠ .comma) e.options TokenKind.noConfusion
      TokenKind.noConfusion)).bind fun found hfound => ?_
  rw [List.map_id, List.map_id] at hfound
  refine (reads_optionalBrackets ok.options TokenKind.noConfusion).bind fun os hos => ?_
  refine reads_ended _ fun info hinfo => ?_
  rw [Extensions.reset, Extensions.reset, hinfo, hfound, hos, NodeInfo.bare]

/-! ### Enums -/

/-- A list with separators starts as its first part does. -/
theorem ahead_separated (P : Lexeme → Prop) {kind : TokenKind} {parts : List (List Lexeme)}
    (some : parts ≠ []) (each : ∀ part ∈ parts, ∃ l ls, part = l :: ls ∧ P l)
    (rest : List Lexeme) : P (ahead (separated kind parts ++ rest) 0) := by
  obtain ⟨part, parts, rfl⟩ := List.exists_cons_of_ne_nil some
  obtain ⟨l, ls, rfl, opens⟩ := each part List.mem_cons_self
  rw [separated_cons]
  exact opens

/-- Behind the keyword of an option statement stands no `=`. -/
theorem ahead_option {o : OptionDecl} (ok : o.WellFormed) (rest : List Lexeme) :
    (ahead (o.printed ++ rest) 1).kind ≠ .equals := by
  obtain ⟨first, others, parts, written⟩ := ok.name
  rw [OptionDecl.printed, OptionDecl.assignment, written, Lexeme.pieces_join]
  simp only [List.append_assoc, List.cons_append, Lexeme.ahead_cons_succ]
  refine ahead_separated (·.kind ≠ .equals) (by simp) ?_ _
  intro part hpart
  obtain ⟨t, ht, rfl⟩ := List.mem_map.1 hpart
  rcases parts t ht with identifier | ⟨name, -, rfl⟩
  · exact ⟨_, _, Lexeme.pieces_identifier identifier, TokenKind.noConfusion⟩
  · exact ⟨_, _, Text.pieces_parenthesized name, TokenKind.noConfusion⟩

/-- Behind the keyword of a reserved statement stands no `=`. -/
theorem ahead_reserved {max : Int} {r : Reserved} (ok : r.WellFormed max) (rest : List Lexeme) :
    (ahead (r.printed ++ rest) 1).kind ≠ .equals := by
  rw [Reserved.printed]
  simp only [List.append_assoc, List.cons_append, Lexeme.ahead_cons_succ]
  refine ahead_separated (·.kind ≠ .equals) ?_ ?_ _
  · simpa [List.append_eq_nil_iff, or_iff_not_imp_left] using ok.some
  · intro part hpart
    rcases List.mem_append.1 hpart with mem | mem
    · obtain ⟨range, -, rfl⟩ := List.mem_map.1 mem
      obtain ⟨ls, written⟩ := printed_range_cons range
      exact ⟨_, ls, written, TokenKind.noConfusion⟩
    · obtain ⟨name, -, rfl⟩ := List.mem_map.1 mem
      exact ⟨_, [], rfl, TokenKind.noConfusion⟩

theorem reads_enumValue {v : EnumValue} (ok : ∀ o ∈ v.options, o.WellFormed)
    {rest : List Lexeme} :
    Reads d enumValue (v.printed ++ rest) rest
      fun a => a.reset NodeInfo.unplaced = v.reset NodeInfo.bare := by
  rw [EnumValue.printed, Field.numbered]
  simp only [List.append_assoc, List.cons_append, List.nil_append]
  refine (reads_expect _ rfl).bind fun first hfirst => ?_
  refine (reads_claimComment hfirst.2).after ?_
  refine reads_numbered v.number ok _ _ TokenKind.noConfusion fun os hos => ?_
  refine reads_ended _ fun info hinfo => ?_
  have name : (⟨first.text, first.span⟩ : Name).text = v.name.text := hfirst.text
  rw [EnumValue.reset, EnumValue.reset, Name.unplaced_eq name, hos, hinfo, NodeInfo.bare]

/-- **A member of an enum is told by the `=` behind its first word**: only a value has
one there. -/
theorem reads_enumMember {m : EnumMember} (ok : m.WellFormed) {rest : List Lexeme} :
    Reads d enumMember (m.printed ++ rest) rest
      fun o => ∃ a, o = some a ∧ a.reset NodeInfo.unplaced = m.reset NodeInfo.bare := by
  have opens : (ahead (m.printed ++ rest) 0).kind ≠ .semicolon := by
    cases m <;> exact TokenKind.noConfusion
  refine (reads_accept_not opens).after (Reads.ite_neg Bool.false_ne_true ?_)
  refine reads_current.bind fun token htoken => ?_
  cases m with
  | value v =>
    refine (reads_peek 1).bind fun next hnext => Reads.ite_neg ?_ ?_
    · rw [hnext.kind]
      exact Bool.false_ne_true
    refine (reads_peek 1).bind fun next hnext => Reads.ite_neg ?_ ?_
    · rw [hnext.kind]
      exact Bool.false_ne_true
    exact (reads_enumValue ok.2).bind fun a ha => Reads.pure ⟨.value a, rfl, congrArg _ ha⟩
  | option o =>
    refine (reads_peek 1).bind fun next hnext => Reads.ite_pos ?_ ?_
    · rw [hnext.kind, htoken.isWord, Bool.and_eq_true, decide_eq_true_eq]
      exact ⟨ahead_option ok rest, Lexeme.isWord_word "option" "option"⟩
    exact (reads_optionStatement ok).bind fun a ha => Reads.pure ⟨.option a, rfl, congrArg _ ha⟩
  | reserved r =>
    refine (reads_peek 1).bind fun next hnext => Reads.ite_neg ?_ ?_
    · rw [htoken.isWord, Bool.and_eq_true]
      exact fun both => absurd both.2
        (ne_of_eq_of_ne (Lexeme.isWord_word "reserved" "option") (by decide))
    refine (reads_peek 1).bind fun next hnext => Reads.ite_pos ?_ ?_
    · rw [hnext.kind, htoken.isWord, Bool.and_eq_true, decide_eq_true_eq]
      exact ⟨ahead_reserved ok rest, Lexeme.isWord_word "reserved" "reserved"⟩
    exact (reads_reserved ok).bind fun a ha => Reads.pure ⟨.reserved a, rfl, congrArg _ ha⟩

/-- An enum is read where one more body may be open. -/
theorem reads_enum {e : Enum} (ok : e.WellFormed) (room : d < maxNesting)
    {rest : List Lexeme} :
    Reads d enum (e.printed ++ rest) rest
      fun a => a.reset NodeInfo.unplaced = e.reset NodeInfo.bare := by
  have starts : ∀ m ∈ e.members, ∃ l ls, m.printed = l :: ls ∧ l.kind ≠ .rightBrace := by
    intro m _
    cases m <;> exact ⟨_, _, rfl, TokenKind.noConfusion⟩
  rw [Enum.printed]
  simp only [List.append_assoc, List.cons_append, List.nil_append]
  refine reads_block "enum" _ _ _
    (fun _ => reads_body room
      (reads_members (fun m hm next => reads_enumMember (ok.members m hm)) starts)) ?_
  intro name members info hname hmembers hinfo
  rw [Enum.reset, Enum.reset, Name.unplaced_eq hname, hmembers, hinfo, NodeInfo.bare]

/-! ### Services -/

/-- What a type starts with is none of the words that open something else. -/
theorem isWord_type {t w : Text} (h : t.IsType) (listed : w ∈ Text.openingWords)
    (rest : List Lexeme) : (ahead (pieces t ++ rest) 0).isWord w = false := by
  obtain ⟨l, ls, written, rfl | ⟨first, free, rfl⟩⟩ := h.pieces_cons
  · rw [written]
    exact Lexeme.isWord_of_kind TokenKind.noConfusion w
  · rw [written]
    refine (Lexeme.isWord_word first w).trans (decide_eq_false ?_)
    rintro rfl
    exact free listed

/-- A type starts with a word or a dot. -/
theorem kind_type {t : Text} (h : t.IsType) (rest : List Lexeme) :
    (ahead (pieces t ++ rest) 0).kind = .identifier ∨ (ahead (pieces t ++ rest) 0).kind = .dot := by
  obtain ⟨l, ls, written, rfl | ⟨first, -, rfl⟩⟩ := h.pieces_cons
  · rw [written]
    exact .inr rfl
  · rw [written]
    exact .inl rfl

/-- The word `stream` is passed in front of a type, and no type starts with it. -/
theorem reads_stream (streams : Bool) {type : Text} (h : type.IsType) {rest : List Lexeme} :
    Reads d stream ((if streams then [word "stream"] else []) ++ (pieces type ++ rest))
      (pieces type ++ rest) (· = streams) := by
  refine reads_current.bind fun token htoken => (reads_peek 1).bind fun next hnext => ?_
  cases streams with
  | true =>
    refine Reads.ite_pos ?_ (reads_advance.bind fun _ _ => Reads.pure rfl)
    rw [htoken.isWord, hnext.kind, Bool.and_eq_true, Bool.or_eq_true, decide_eq_true_eq,
      decide_eq_true_eq]
    exact ⟨Lexeme.isWord_word "stream" "stream", kind_type h rest⟩
  | false =>
    refine Reads.ite_neg ?_ (Reads.pure rfl)
    rw [htoken.isWord, Bool.and_eq_true]
    exact fun both => absurd both.1 (ne_of_eq_of_ne (isWord_type h (by decide) rest)
      Bool.false_ne_true)

/-- A type in parentheses. -/
theorem reads_parameter (streams : Bool) {type : Text} (h : type.IsType)
    (what what' what'' : Text) {rest left : List Lexeme} {α : Type} {f : Bool → Name → Rule α}
    {Q : α → Prop} (hf : ∀ t : Name, t.text = type → Reads d (f streams t) rest left Q) :
    Reads d (do
        let _ ← expect .leftParen what
        let s ← stream
        let t ← qualifiedName what'
        let _ ← expect .rightParen what''
        f s t)
      (Rpc.parameter streams type ++ rest) left Q := by
  rw [Rpc.parameter]
  simp only [List.append_assoc, List.cons_append, List.nil_append]
  refine (reads_expect what rfl).bind fun _ _ => ?_
  refine (reads_stream streams h).bind ?_
  rintro _ rfl
  refine (reads_qualifiedName h what' TokenKind.noConfusion).bind fun t ht => ?_
  exact (reads_expect what'' rfl).bind fun _ _ => hf t ht

theorem reads_rpcMember {o : OptionDecl} (ok : o.WellFormed) {rest : List Lexeme} :
    Reads d rpcMember (o.printed ++ rest) rest
      fun a => ∃ b, a = some b ∧ b.reset NodeInfo.unplaced = o.reset NodeInfo.bare := by
  refine (reads_accept_not TokenKind.noConfusion).after (Reads.ite_neg Bool.false_ne_true ?_)
  refine reads_current.bind fun token htoken => Reads.ite_pos ?_ ?_
  · rw [htoken.isWord]
    exact Lexeme.isWord_word "option" "option"
  exact (reads_optionStatement ok).bind fun a ha => Reads.pure ⟨a, rfl, ha⟩

/-- A procedure is read back; it has a body if it has options. -/
theorem reads_rpc {x : Rpc} (ok : x.WellFormed) (room : d < maxNesting) {rest : List Lexeme} :
    Reads d rpc (x.printed ++ rest) rest
      fun a => a.reset NodeInfo.unplaced = x.reset NodeInfo.bare := by
  rw [Rpc.printed]
  simp only [List.append_assoc, List.cons_append]
  refine reads_opening "rpc" fun first => ?_
  refine (reads_simpleName _ _).bind fun name hname => ?_
  refine reads_parameter x.requestStreams ok.request _ _ _ fun request hrequest => ?_
  refine (reads_expectWord "returns" _).bind fun _ _ => ?_
  refine reads_parameter x.responseStreams ok.response _ _ _ fun response hresponse => ?_
  split_ifs with empty
  · refine (reads_check .leftBrace).after (Reads.ite_neg Bool.false_ne_true ?_)
    refine reads_ended _ fun info hinfo => ?_
    rw [Rpc.reset, Rpc.reset, Name.unplaced_eq hname, Name.unplaced_eq hrequest,
      Name.unplaced_eq hresponse, List.isEmpty_iff.1 empty, hinfo, NodeInfo.bare]
    rfl
  · have starts : ∀ o ∈ x.options, ∃ l ls, o.printed = l :: ls ∧ l.kind ≠ .rightBrace :=
      fun _ _ => ⟨_, _, rfl, TokenKind.noConfusion⟩
    simp only [List.append_assoc, List.cons_append, List.nil_append]
    refine (reads_check .leftBrace).after (Reads.ite_pos rfl ?_)
    refine reads_braced reads_advance (reads_body room <| reads_members
      (fun o ho next => reads_rpcMember (ok.options o ho)) starts) ?_
    intro options info hoptions hinfo
    rw [Rpc.reset, Rpc.reset, Name.unplaced_eq hname, Name.unplaced_eq hrequest,
      Name.unplaced_eq hresponse, hoptions, hinfo, NodeInfo.bare]

theorem reads_serviceMember {m : ServiceMember} (ok : m.WellFormed) (room : d < maxNesting)
    {rest : List Lexeme} :
    Reads d serviceMember (m.printed ++ rest) rest
      fun o => ∃ a, o = some a ∧ a.reset NodeInfo.unplaced = m.reset NodeInfo.bare := by
  have opens : (ahead (m.printed ++ rest) 0).kind ≠ .semicolon := by
    cases m <;> exact TokenKind.noConfusion
  refine (reads_accept_not opens).after (Reads.ite_neg Bool.false_ne_true ?_)
  refine reads_current.bind fun token htoken => ?_
  cases m with
  | option o =>
    refine Reads.ite_pos ?_ ?_
    · rw [htoken.isWord]
      exact Lexeme.isWord_word "option" "option"
    exact (reads_optionStatement ok).bind fun a ha => Reads.pure ⟨.option a, rfl, congrArg _ ha⟩
  | rpc r =>
    refine Reads.ite_neg ?_ (Reads.ite_pos ?_ ?_)
    · rw [htoken.isWord]
      exact ne_of_eq_of_ne (Lexeme.isWord_word "rpc" "option") (by decide)
    · rw [htoken.isWord]
      exact Lexeme.isWord_word "rpc" "rpc"
    exact (reads_rpc ok room).bind fun a ha => Reads.pure ⟨.rpc a, rfl, congrArg _ ha⟩

/-- A service is read where two more bodies may be open: its own and that of a
procedure. -/
theorem reads_service {s : Service} (ok : s.WellFormed) (room : d + 1 < maxNesting)
    {rest : List Lexeme} :
    Reads d service (s.printed ++ rest) rest
      fun a => a.reset NodeInfo.unplaced = s.reset NodeInfo.bare := by
  have starts : ∀ m ∈ s.members, ∃ l ls, m.printed = l :: ls ∧ l.kind ≠ .rightBrace := by
    intro m _
    cases m <;> exact ⟨_, _, rfl, TokenKind.noConfusion⟩
  rw [Service.printed]
  simp only [List.append_assoc, List.cons_append, List.nil_append]
  refine reads_block "service" _ _ _
    (fun _ => reads_body (Nat.lt_of_succ_lt room)
      (reads_members (fun m hm next => reads_serviceMember (ok.members m hm) room) starts)) ?_
  intro name members info hname hmembers hinfo
  rw [Service.reset, Service.reset, Name.unplaced_eq hname, hmembers, hinfo, NodeInfo.bare]

end Rule

end ProtoAtlas
