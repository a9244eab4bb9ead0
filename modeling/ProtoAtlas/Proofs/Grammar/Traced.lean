/-
# How rules are traced

What a run of a rule does is said once, and from the place where its statement starts
(`Rule.RunsAt`): a result comes with what was read up to it, a fault is one that the reader
at the start stumbles over, and no run ends with a number literal that has no answer.

A rule made of parts is followed part by part, with the tokens that are taken and the
comments that are given up to here (`Rule.Follows`).  There are three kinds of rules:

* a part of a statement takes tokens inside the statement (`Rule.Takes`);
* a declaration goes on to the end of its statement, and its node lies on the tokens it has
  taken (`Rule.Declares`);
* a body gives a row of nodes and ends behind its closing brace (`Rule.TracedBody`).

For a declaration that ends in a `;` or in a body, what is to be shown of the end is shown
here (`Follows.ended`, `RunsAt.enclosed`).
-/

import ProtoAtlas.Proofs.Grammar.Trace
import ProtoAtlas.Proofs.Schema.Depth
import ProtoAtlas.Proofs.Schema.Laid
import ProtoAtlas.Proofs.Schema.Listed

namespace ProtoAtlas

open Node (Laid Draft)

/-! ### What is read between two readers -/

namespace Reader

/-- Some tokens are taken and some comments given away.  The stock is kept where no token
has a comment behind it: a declaration without a comment in front takes that one. -/
structure Spends (r : Reader) (w : List Token) (given : List Text) (s : Reader) : Prop where
  passes : r.Passes w s
  comments : Token.Quiet w → (given ++ s.comments).Subperm r.comments

/-- Some nodes lie on the tokens between two readers and have been given their comments. -/
def Lays (r : Reader) (ns : List Node) (s : Reader) : Prop :=
  ∃ w, r.Spends w (ns.flatMap Node.comments) s ∧ Row Laid w ns

/-- A declaration is read through the end of its statement. -/
structure Declared (limit : Nat) (r : Reader) (n : Node) (s : Reader) : Prop where
  finishes : r.Finishes limit s
  lays : r.Lays [n] s
  fits : n.Fits (maxNesting - r.depth)

/-- A body is read from behind its opening brace. -/
structure Filled (limit : Nat) (kinds : List NodeKind) (r : Reader) (ns : List Node)
    (s : Reader) : Prop where
  read : BodyRead limit r s
  lays : r.Lays ns s
  fits : Node.FitIn kinds (maxNesting - r.depth) ns

variable {limit : Nat} {r s t : Reader} {v w : List Token} {given more : List Text}
variable {ns ms : List Node}

theorem Goes.spends (h : r.Goes w given s) : r.Spends w given s := ⟨h.passes, fun _ => h.comments⟩

/-- Tokens that are only passed. -/
theorem Passes.spends (h : r.Passes w s) (comments : s.comments.Subperm r.comments) :
    r.Spends w [] s :=
  ⟨h, fun _ => comments⟩

theorem Spends.trans (h : r.Spends v given s) (h' : s.Spends w more t) :
    r.Spends (v ++ w) (given ++ more) t where
  passes := h.passes.trans h'.passes
  comments := fun quiet => by
    rw [List.append_assoc]
    exact ((List.Subperm.refl given).append (h'.comments quiet.right)).trans
      (h.comments quiet.left)

theorem Spends.lays_nil (h : r.Spends w [] s) : r.Lays [] s := ⟨w, h, .nil w⟩

theorem Spends.lays_single {n : Node} (h : r.Spends w n.comments s) (laid : Laid w n) :
    r.Lays [n] s :=
  ⟨w, by rwa [List.flatMap_singleton], .single laid⟩

theorem Lays.exists_passes (h : r.Lays ns s) : ∃ w, r.Passes w s := by
  obtain ⟨w, spends, -⟩ := h
  exact ⟨w, spends.passes⟩

theorem Lays.trans (h : r.Lays ns s) (h' : s.Lays ms t) : r.Lays (ns ++ ms) t := by
  obtain ⟨v, spends, row⟩ := h
  obtain ⟨w, spends', row'⟩ := h'
  refine ⟨v ++ w, ?_, row.append row'⟩
  rw [List.flatMap_append]
  exact spends.trans spends'

/-- What is left of a faulty statement is passed over. -/
theorem Stumbles.lays {f : SyntaxFault} (h : r.Stumbles f s) (n : Nat) :
    r.Lays [] ((s.record f).advanceBy n) := by
  obtain ⟨w, pass, -⟩ := h.way
  have skipped := (s.passes_record f).trans ((s.record f).passes_advanceBy n)
  refine Spends.lays_nil ((pass.trans skipped).spends ?_)
  exact ((s.record f).comments_advanceBy n).subperm.trans h.comments

end Reader

namespace Rule

variable {α β : Type}

/-! ### Runs -/

/-- A run of a rule from the reader `r`, in a statement that starts at the reader `o`. -/
structure RunsAt (o r : Reader) (x : Rule α) (A : Reader → α → Prop) : Prop where
  ok : ∀ {a : α} {s : Reader}, x r = .ok a s → A s a
  fault : ∀ {f : SyntaxFault} {s : Reader}, x r = .error (.fault f) s → o.Stumbles f s
  literal : ∀ {e : Literal.NumberError} {s : Reader}, x r ≠ .error (.literal e) s

namespace RunsAt

variable {o r s : Reader} {x y : Rule α} {f : α → Rule β} {A : Reader → α → Prop}
variable {B : Reader → β → Prop}

theorem of_ok {a : α} (run : x r = .ok a s) (h : A s a) : RunsAt o r x A where
  ok := fun same => by
    cases run.symm.trans same
    exact h
  fault := fun same => by cases run.symm.trans same
  literal := fun same => by cases run.symm.trans same

theorem of_fault {f : SyntaxFault} (run : x r = .error (.fault f) s) (h : o.Stumbles f s) :
    RunsAt o r x A where
  ok := fun same => by cases run.symm.trans same
  fault := fun same => by
    cases run.symm.trans same
    exact h
  literal := fun same => by cases run.symm.trans same

/-- A run that goes on as another one. -/
theorem of_run (same : x r = y s) (h : RunsAt o s y A) : RunsAt o r x A where
  ok := fun run => h.ok (same.symm.trans run)
  fault := fun run => h.fault (same.symm.trans run)
  literal := fun run => h.literal (same.symm.trans run)

theorem bind (hx : RunsAt o r x A) (hf : ∀ {a : α} {s : Reader}, A s a → RunsAt o s (f a) B) :
    RunsAt o r (x >>= f) B := by
  cases first : x r with
  | ok a s => exact of_run (run_bind_ok first f) (hf (hx.ok first))
  | error e s =>
    cases e with
    | fault g => exact of_fault (run_bind_error first f) (hx.fault first)
    | literal e => exact absurd first hx.literal

/-- What a part reads in front of the reader is known. -/
theorem read {a : α} (run : x r = .ok a r) (h : RunsAt o r (f a) B) : RunsAt o r (x >>= f) B :=
  of_run (run_bind_ok run f) h

/-- The statement of a part starts before it. -/
theorem behind {w : List Token} {k : List Text} (goes : o.Goes w k r) (h : RunsAt r r x A) :
    RunsAt o r x A :=
  ⟨h.ok, fun run => goes.stumbles (h.fault run), h.literal⟩

theorem imp {A' : Reader → α → Prop} (h : RunsAt o r x A) (hA : ∀ {a s}, A s a → A' s a) :
    RunsAt o r x A' :=
  ⟨fun run => hA (h.ok run), h.fault, h.literal⟩

end RunsAt

/-- A rule is run after the tokens `w` of a statement, with the comments `k` given away. -/
def Follows (o : Reader) (w : List Token) (k : List Text) (x : Rule α)
    (A : Reader → α → Prop) : Prop :=
  o.Lexed → ∀ r, o.Goes w k r → RunsAt o r x A

/-- A result is read from the tokens taken up to here. -/
def Onto (o : Reader) (P : List Token → α → Prop) (s : Reader) (a : α) : Prop :=
  ∃ w, o.Goes w [] s ∧ P w a

/-- A rule for a part of a statement. -/
def Takes (x : Rule α) (P : List Token → α → Prop) : Prop := ∀ o, Follows o [] [] x (Onto o P)

theorem Takes.at {x : Rule α} {P : List Token → α → Prop} (h : Takes x P) {r : Reader}
    (hr : r.Lexed) : RunsAt r r x (Onto r P) :=
  h r hr r (.refl r)

theorem Takes.of_runsAt {x : Rule α} {P : List Token → α → Prop}
    (h : ∀ r : Reader, r.Lexed → RunsAt r r x (Onto r P)) : Takes x P := by
  intro o ho r goes
  refine (RunsAt.behind goes (h r (goes.passes.lexed ho))).imp ?_
  rintro a s ⟨w, goes', here⟩
  exact ⟨w, goes.trans goes', here⟩

/-! ### Parts that follow each other -/

section Sequence

variable {o : Reader} {w : List Token} {k : List Text} {x : Rule α} {f : α → Rule β}
variable {P : List Token → α → Prop} {A : Reader → α → Prop} {B : Reader → β → Prop}

/-- The next part of a statement. -/
theorem Takes.seq (hx : Takes x P) (hf : ∀ v a, P v a → Follows o (w ++ v) k (f a) B) :
    Follows o w k (x >>= f) B := by
  intro ho r goes
  refine (RunsAt.behind goes (hx.at (goes.passes.lexed ho))).bind ?_
  rintro a s ⟨v, goes', here⟩
  have whole := goes.trans goes'
  rw [List.append_nil] at whole
  exact hf v a here ho s whole

namespace Follows

/-- A look is no part. -/
theorem look (hx : Looks x) (hf : ∀ a, Follows o w k (f a) B) : Follows o w k (x >>= f) B := by
  intro ho r goes
  obtain ⟨a, run⟩ := hx r
  exact .read run (hf a ho r goes)

/-- The first token of a statement is seen. -/
theorem current {f : Token → Rule β} (hf : Follows o [] [] (f o.current) B) :
    Follows o [] [] (Rule.current >>= f) B :=
  fun ho r goes => .read (run_current r) (goes.passes.current_eq ▸ hf ho r goes)

/-- The latest token is the last of those taken. -/
theorem previous {f : Token → Rule β} (ne : w ≠ [])
    (hf : ∀ last, w.getLast? = some last → Follows o w k (f last) B) :
    Follows o w k (Rule.previous >>= f) B :=
  fun ho r goes =>
    .read (run_previous r) (hf r.previous (goes.passes.previous ne) ho r goes)

/-- The comment of the statement is claimed. -/
theorem claim {f : Option Text → Rule β} (ne : w ≠ [])
    (hf : ∀ comment : Option Text, Follows o w comment.toList (f comment) B) :
    Follows o w [] (claimComment o.current >>= f) B := by
  intro ho r goes
  have run : claimComment o.current r =
      .ok ((spoken o.current.leading).or r.dangling) { r with dangling := none } := rfl
  exact .of_run (run_bind_ok run f) (hf _ ho _ (goes.claim ne))

/-- A part is complete. -/
theorem done {a : α} (h : ∀ r, o.Goes w [] r → P w a) :
    Follows o w [] (pure a : Rule α) (Onto o P) :=
  fun _ r goes => .of_ok rfl ⟨w, goes, h r goes⟩

/-- A fault at the next token. -/
theorem reject {cause : SyntaxCause} (ordinary : ∀ block, cause ≠ .tooDeep block) :
    Follows o w k (reject cause : Rule α) A :=
  fun _ _ goes => .of_fault rfl (goes.fault (Or.inl rfl) ordinary)

theorem ite {c : Prop} [Decidable c] {y z : Rule α} (hy : Follows o w k y A)
    (hz : Follows o w k z A) : Follows o w k (if c then y else z) A := by
  split
  · exact hy
  · exact hz

/-- A literal has an answer, or else its fault is at a token that was taken. -/
theorem answer {fault : SyntaxFault} {answered : Except Literal.NumberError (Option α)}
    (place : ∃ t ∈ w, fault.span = t.span) (ordinary : ∀ block, fault.cause ≠ .tooDeep block)
    (h : ∃ a, answered = .ok a) (hf : ∀ a, Follows o w k (f a) B) :
    Follows o w k (Rule.answer fault answered >>= f) B := by
  intro ho r goes
  obtain ⟨found, rfl⟩ := h
  cases found with
  | some a => exact .of_run rfl (hf a ho r goes)
  | none => exact .of_fault rfl (goes.fault (Or.inr place) ordinary)

end Follows

/-! ### Tokens -/

/-- The only token taken has a kind. -/
structure TakesOne (kind : TokenKind) (v : List Token) (t : Token) : Prop where
  only : v = [t]
  kind : t.kind = kind
  lexed : t.Lexed

/-- A token that was seen is taken. -/
theorem takesOne_advance {r : Reader} (hr : r.Lexed) {kind : TokenKind}
    (h : r.current.kind = kind) (ordinary : kind.Ordinary) :
    Onto r (TakesOne kind) r.advance r.current := by
  subst h
  exact ⟨_, hr.goes_advance ordinary, rfl, rfl, hr.current_lexed ordinary.2.2.2⟩

/-- A token that was seen is taken, and the statement goes on. -/
theorem RunsAt.take {f : Token → Rule β} {r : Reader} {kind : TokenKind} (ho : o.Lexed)
    (goes : o.Goes w k r) (h : r.current.kind = kind) (ordinary : kind.Ordinary)
    (hf : ∀ t, TakesOne kind [t] t → Follows o (w ++ [t]) k (f t) B) :
    RunsAt o r (advance >>= f) B := by
  obtain ⟨v, goes', one⟩ := takesOne_advance (goes.passes.lexed ho) h ordinary
  rw [one.only] at goes' one
  have whole := goes.trans goes'
  rw [List.append_nil] at whole
  exact .of_run (run_bind_ok (run_advance r) f) (hf _ one ho _ whole)

theorem takes_accept {kind : TokenKind} (ordinary : kind.Ordinary) :
    Takes (accept kind) fun v found => if found then ∃ t, TakesOne kind v t else v = [] := by
  refine .of_runsAt fun r hr => ?_
  by_cases h : r.current.kind = kind
  · obtain ⟨v, goes, one⟩ := takesOne_advance hr h ordinary
    exact .of_ok ((run_accept kind r).trans (if_pos h)) ⟨v, goes, _, one⟩
  · exact .of_ok ((run_accept kind r).trans (if_neg h)) ⟨[], .refl r, rfl⟩

theorem takes_expect {kind : TokenKind} (what : Text) (ordinary : kind.Ordinary) :
    Takes (expect kind what) (TakesOne kind) := by
  refine .of_runsAt fun r hr => ?_
  by_cases h : r.current.kind = kind
  · exact .of_ok ((run_expect kind what r).trans (if_pos h)) (takesOne_advance hr h ordinary)
  · exact .of_fault ((run_expect kind what r).trans (if_neg h))
      ((Reader.Goes.refl r).fault (Or.inl rfl) nofun)

theorem takes_expectWord (word what : Text) :
    Takes (expectWord word what) (TakesOne .identifier) := by
  refine .of_runsAt fun r hr => ?_
  by_cases h : r.current.isWord word = true
  · exact .of_ok ((run_expectWord word what r).trans (if_pos h))
      (takesOne_advance hr (Token.kind_of_isWord h) (by decide))
  · exact .of_fault ((run_expectWord word what r).trans (if_neg h))
      ((Reader.Goes.refl r).fault (Or.inl rfl) nofun)

theorem takes_keyword (word : Text) : Takes (keyword word) (TakesOne .identifier) :=
  takes_expectWord word _

/-- A statement begins with a token of its own. -/
theorem Takes.first {x : Rule Token} {kind : TokenKind} {f : Token → Rule β}
    (hx : Takes x (TakesOne kind))
    (hf : o.current.kind = kind → Follows o [o.current] [] (f o.current) B) :
    Follows o [] [] (x >>= f) B := by
  refine hx.seq fun v t one ho r goes => ?_
  obtain ⟨rfl, kind, -⟩ := one
  have same : o.current = t := (Option.some.inj (goes.passes.head (List.cons_ne_nil _ _))).symm
  subst same
  exact hf kind ho r goes

end Sequence

/-! ### Repetition -/

/-- Each of the results, if there are some, is read from the tokens. -/
def Each (P : List Token → α → Prop) (v : List Token) (o : Option α) : Prop := ∀ a ∈ o, P v a

theorem each_none {P : List Token → α → Prop} {v : List Token} : Each P v none :=
  fun a h => absurd h (Option.not_mem_none a)

theorem each_some {P : List Token → α → Prop} {v : List Token} {a : α} (h : P v a) :
    Each P v (some a) := by
  rintro b ⟨⟩
  exact h

/-- Stretches of tokens that each give a result. -/
inductive Repeated (P : List Token → α → Prop) : List Token → List α → Prop
  | stop : Repeated P [] []
  | go {v w : List Token} {a : α} {as : List α} (here : P v a) (rest : Repeated P w as) :
      Repeated P (v ++ w) (a :: as)

section Repetition

variable {step : Rule (Option α)} {P : List Token → α → Prop}

theorem takes_repeatUpTo (h : Takes step fun v o => (o = none → v = []) ∧ Each P v o)
    (fuel : Nat) : Takes (repeatUpTo step fuel) (Repeated P) := by
  induction fuel with
  | zero => exact fun o => .done fun _ _ => .stop
  | succ fuel ih =>
    intro o
    refine h.seq fun v found ho => ?_
    cases found with
    | none =>
      rw [ho.1 rfl]
      exact .done fun _ _ => .stop
    | some a => exact ih.seq fun w as has => .done fun _ _ => .go (ho.2 a rfl) has

theorem takes_many (h : Takes step fun v o => (o = none → v = []) ∧ Each P v o) :
    Takes (many step) (Repeated P) :=
  fun o => .look looks_get fun _ => takes_repeatUpTo h _ o

end Repetition

/-- A result behind a separator. -/
def Behind (separator : TokenKind) (P : List Token → α → Prop) (w : List Token) (a : α) : Prop :=
  ∃ t v, w = t :: v ∧ t.kind = separator ∧ t.Lexed ∧ P v a

/-- One or more results with separators between them. -/
def Separated (separator : TokenKind) (P : List Token → α → Prop) (w : List Token)
    (as : List α) : Prop :=
  ∃ v a v' as', w = v ++ v' ∧ as = a :: as' ∧ P v a ∧ Repeated (Behind separator P) v' as'

theorem takes_separatedBy {separator : TokenKind} (ordinary : separator.Ordinary)
    {element : Rule α} {P : List Token → α → Prop} (h : Takes element P) :
    Takes (separatedBy separator element) (Separated separator P) := by
  intro o
  refine h.seq fun v a here => ?_
  refine (takes_many (P := Behind separator P) fun o => ?_).seq fun v' as' there =>
    .done fun _ _ => ⟨v, a, v', as', rfl, rfl, here, there⟩
  refine (takes_accept ordinary).seq fun w found taken => ?_
  cases found with
  | true =>
    obtain ⟨t, rfl, kind, lexed⟩ := taken
    exact h.seq fun v' b behind => .done fun _ _ =>
      ⟨nofun, each_some ⟨t, v', rfl, kind, lexed, behind⟩⟩
  | false => exact .done fun _ _ => ⟨fun _ => taken, each_none⟩

theorem Separated.row {separator : TokenKind} {P : List Token → α → Prop} {w : List Token}
    {as : List α} (h : Separated separator P w as) : Row P w as := by
  obtain ⟨v, a, v', as', rfl, rfl, here, there⟩ := h
  refine .cons [] here ?_
  clear here
  induction there with
  | stop => exact .nil []
  | go behind _ ih =>
    obtain ⟨t, u, rfl, -, -, behind⟩ := behind
    exact .cons [t] behind ih

/-! ### Declarations -/

/-- A rule for a declaration, run where `d` bodies are open. -/
def Declares (limit d : Nat) (x : Rule α) (node : α → Node) : Prop :=
  ∀ o : Reader, o.depth = d → Follows o [] [] x fun s a => o.Declared limit (node a) s

/-- A rule for a body, run behind its opening brace where `d` bodies are open. -/
def TracedBody (limit d : Nat) (kinds : List NodeKind) (x : Rule (List α)) (node : α → Node) :
    Prop :=
  ∀ r : Reader, r.Lexed → r.depth = d →
    ∃ as s, x r = .ok as s ∧ r.Filled limit kinds (as.map node) s

section Ends

variable {o : Reader} {w : List Token} {comment : Option Text} {names : List (Spelling × Name)}
variable {options : List OptionDecl} {limit : Nat}

/-- The comments of a node are its own and those of its members. -/
theorem comments_of_children {n : Node} (members : List Node) (comments : n.info.comments = comment)
    (silent : ∀ o ∈ options, o.info.comments = none)
    (children : n.children = options.map OptionDecl.node ++ members) :
    n.comments = comment.toList ++ members.flatMap Node.comments := by
  have none : (options.map OptionDecl.node).flatMap Node.comments = [] := by
    rw [List.flatMap_eq_nil_iff]
    intro c hc
    obtain ⟨option, mem, rfl⟩ := List.mem_map.1 hc
    rw [Node.comments_eq, show option.node.info.comments = none from silent option mem]
    rfl
  rw [Node.comments_eq, comments, children, List.flatMap_append, none, List.nil_append]

/-- What `close` notes of a declaration. -/
def closing (o : Reader) (comment : Option Text) (brace : Option Token) (s : Reader) : NodeInfo :=
  let trailing := (spoken (brace.bind (·.trailing))).or s.previous.trailing
  ⟨⟨o.current.span.start, s.previous.span.stop⟩, comment.or trailing, trailing⟩

theorem run_close (o : Reader) (comment : Option Text) (brace : Option Token) (s : Reader) :
    close o.current comment brace s = .ok (closing o comment brace s) s := rfl

/-- Where no token has a comment behind it, a declaration has the one it has claimed. -/
theorem comments_closing {s : Reader} (pass : o.Passes w s) (ne : w ≠ []) (quiet : Token.Quiet w)
    (comment : Option Text) (brace : Option Token) (taken : ∀ t ∈ brace, t ∈ w) :
    (closing o comment brace s).comments = comment := by
  have last : s.previous.trailing = none :=
    quiet _ (List.mem_of_getLast? (pass.previous ne))
  have behind : brace.bind (·.trailing) = none := by
    cases brace with
    | none => rfl
    | some t => exact quiet t (taken t rfl)
  simp only [closing, behind, last, spoken, Option.or_none]

/-- **The end of a declaration without a body**: its draft is complete behind the `;`. -/
theorem Follows.ended {g : NodeInfo → α} {node : α → Node} {what : Text}
    (draft : Draft w names options)
    (shape : ∀ info, (node (g info)).info = info ∧ (node (g info)).spellings = names ∧
      (node (g info)).children = options.map OptionDecl.node ∧ (node (g info)).members = []) :
    Follows o w comment.toList
      (expect .semicolon what >>= fun _ => close o.current comment none >>= fun info =>
        pure (g info))
      fun s a => o.Declared limit (node a) s := by
  intro ho r goes
  by_cases semicolon : r.current.kind = .semicolon
  · obtain ⟨info, spellings, children, members⟩ := shape (closing o comment none r.advance)
    have pass := (goes.passes.lexed ho).passes_advance_current (by simp [semicolon])
    have whole := goes.passes.trans pass
    refine .of_run (run_bind_ok ((run_expect _ what r).trans (if_pos semicolon)) _) ?_
    refine .of_run (run_bind_ok (run_close o comment none r.advance) _) (.of_ok rfl ?_)
    refine ⟨.plain ⟨goes, pass, semicolon⟩, ?_, Node.fits_of_members_eq_nil members _⟩
    refine Reader.Spends.lays_single (w := w ++ [r.current]) ⟨whole, fun quiet => ?_⟩ ?_
    · have own := comments_closing whole (by simp) quiet comment none nofun
      rw [comments_of_children [] (by rw [info, own]) draft.silent
        (by rw [children, List.append_nil]), List.flatMap_nil, List.append_nil]
      exact ((List.Subperm.refl _).append r.comments_advance.subperm).trans goes.comments
    · exact (draft.pass [r.current]).laid_plain (whole.head (by simp)) (whole.previous (by simp))
        (by rw [Node.span, info]; rfl) spellings children
  · exact .of_fault (run_bind_error ((run_expect _ what r).trans (if_neg semicolon)) _)
      (goes.fault (Or.inl rfl) nofun)

/-- **The end of a declaration with a body**, from its opening brace on. -/
theorem RunsAt.enclosed {r : Reader} {x : Rule Token} {body : Rule (List β)} {member : β → Node}
    {kinds : List NodeKind} {g : List β → NodeInfo → α} {node : α → Node} (ho : o.Lexed)
    (goes : o.Goes w comment.toList r) (left : r.current.kind = .leftBrace)
    (run : x r = .ok r.current r.advance) (inner : TracedBody limit o.depth kinds body member)
    (draft : Draft w names options)
    (shape : ∀ as info, (node (g as info)).info = info ∧ (node (g as info)).spellings = names ∧
      (node (g as info)).children = options.map OptionDecl.node ++ as.map member ∧
      (node (g as info)).members = as.map member ∧ (node (g as info)).kind.inside = kinds) :
    RunsAt o r
      (x >>= fun brace => body >>= fun as => close o.current comment (some brace) >>= fun info =>
        pure (g as info))
      fun s a => o.Declared limit (node a) s := by
  have pass := (goes.passes.lexed ho).passes_advance_current (by simp [left])
  have front := goes.passes.trans pass
  have depth : r.advance.depth = o.depth := front.depth
  obtain ⟨as, s, read, filled⟩ := inner r.advance (front.lexed ho) depth
  obtain ⟨v, spends, row⟩ := filled.lays
  have whole := front.trans spends.passes
  have some : w ++ [r.current] ++ v ≠ [] := by simp
  obtain ⟨info, spellings, children, members, inside⟩ := shape as
    (closing o comment (.some r.current) s)
  refine .of_run (run_bind_ok run _) (.of_run (run_bind_ok read _) ?_)
  refine .of_run (run_bind_ok (run_close o comment (.some r.current) s) _) (.of_ok rfl ?_)
  refine ⟨.block ⟨goes, pass, left⟩ filled.read, ?_, ?_⟩
  · refine Reader.Spends.lays_single ⟨whole, fun quiet => ?_⟩ ?_
    · have own := comments_closing whole some quiet comment r.current (by rintro _ ⟨⟩; simp)
      rw [comments_of_children _ (by rw [info, own]) draft.silent children, List.append_assoc]
      refine List.Subperm.trans ?_ goes.comments
      refine (List.Subperm.refl _).append ?_
      exact (spends.comments quiet.right).trans r.comments_advance.subperm
    · exact (draft.pass [r.current]).laid row (whole.head some) (whole.previous some)
        (by rw [Node.span, info]; rfl) spellings children
  · rw [Node.fits_iff_fitIn, members, inside, ← depth]
    exact filled.fits

theorem Follows.enclosed {what : Text} {body : Rule (List β)} {member : β → Node}
    {kinds : List NodeKind} {g : List β → NodeInfo → α} {node : α → Node}
    (inner : TracedBody limit o.depth kinds body member) (draft : Draft w names options)
    (shape : ∀ as info, (node (g as info)).info = info ∧ (node (g as info)).spellings = names ∧
      (node (g as info)).children = options.map OptionDecl.node ++ as.map member ∧
      (node (g as info)).members = as.map member ∧ (node (g as info)).kind.inside = kinds) :
    Follows o w comment.toList
      (expect .leftBrace what >>= fun brace => body >>= fun as =>
        close o.current comment (some brace) >>= fun info => pure (g as info))
      fun s a => o.Declared limit (node a) s := by
  intro ho r goes
  by_cases left : r.current.kind = .leftBrace
  · exact .enclosed ho goes left ((run_expect _ what r).trans (if_pos left)) inner draft shape
  · exact .of_fault (run_bind_error ((run_expect _ what r).trans (if_neg left)) _)
      (goes.fault (Or.inl rfl) nofun)

end Ends

/-! ### Statements -/

/-- A rule for statements of some kinds, but for the empty one. -/
def States (limit d : Nat) (kinds : List NodeKind) (x : Rule (Option α)) (node : α → Node) : Prop :=
  ∀ o : Reader, o.depth = d → Follows o [] [] x fun s c =>
    ∃ a, c = some a ∧ (node a).kind ∈ kinds ∧ o.Declared limit (node a) s

/-- A rule for statements of some kinds, where a `;` alone is one. -/
structure Statement (limit d : Nat) (kinds : List NodeKind) (x : Rule (Option α))
    (node : α → Node) : Prop where
  empty : ∀ r : Reader, r.current.kind = .semicolon → x r = .ok none r.advance
  full : ∀ r : Reader, r.Lexed → r.depth = d → r.current.kind ≠ .semicolon →
    RunsAt r r x fun s c => ∃ a, c = some a ∧ (node a).kind ∈ kinds ∧ r.Declared limit (node a) s

section Statements

variable {limit d : Nat} {kinds : List NodeKind} {x : Rule (Option α)} {node : α → Node}

/-- A declaration is a statement of its kind. -/
theorem Follows.declared {o : Reader} {y : Rule β} {g : β → α} (kind : NodeKind)
    (h : Declares limit d y fun b => node (g b)) (depth : o.depth = d)
    (same : ∀ b, (node (g b)).kind = kind) (mem : kind ∈ kinds) :
    Follows o [] [] (do return some (g (← y))) fun s c =>
      ∃ a, c = some a ∧ (node a).kind ∈ kinds ∧ o.Declared limit (node a) s :=
  fun ho r goes => (h o depth ho r goes).bind fun {b _} declared =>
    .of_ok rfl ⟨g b, rfl, same b ▸ mem, declared⟩

theorem States.at (h : States limit d kinds x node) {r : Reader} (hr : r.Lexed)
    (depth : r.depth = d) :
    RunsAt r r x fun s c => ∃ a, c = some a ∧ (node a).kind ∈ kinds ∧ r.Declared limit (node a) s :=
  h r depth hr r (.refl r)

/-- A `;` alone is read before anything else. -/
theorem Statement.orSemicolon (h : States limit d kinds x node) :
    Statement limit d kinds (do if ← accept .semicolon then return none else x) node where
  empty := fun r semicolon => by
    rw [run_bind_ok ((run_accept _ r).trans (if_pos semicolon))]
    rfl
  full := fun r hr depth other =>
    .read ((run_accept _ r).trans (if_neg other)) (h.at hr depth)

end Statements

end Rule
end ProtoAtlas
