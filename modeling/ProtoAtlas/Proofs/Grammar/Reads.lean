/-
# What a rule reads

`Reads d rule before after P` says that a rule, in front of tokens with the lexemes
`before` and without comments and inside `d` bodies, takes tokens until `after` is left,
finds no fault and gives a result that satisfies `P`.  The statement is about all the
lexemes that are left, so that a rule may look ahead as far as it likes.

Rules that read one after the other read together (`Reads.bind`).  A list with
separators reads if its elements do in front of the separator and of what follows the
list (`reads_separatedBy`), and a body reads if its members do (`reads_members`).
-/

import ProtoAtlas.Proofs.Grammar.Run
import ProtoAtlas.Proofs.Schema.Printed

namespace ProtoAtlas

namespace Lexeme

/-- The lexeme of the end of a file. -/
def finish : Lexeme := ⟨.endOfFile, []⟩

/-- The lexeme at a distance. -/
def ahead (ls : List Lexeme) (distance : Nat) : Lexeme :=
  ls.getD distance finish

@[simp] theorem ahead_cons_zero (l : Lexeme) (ls : List Lexeme) : ahead (l :: ls) 0 = l := rfl

@[simp] theorem ahead_cons_succ (l : Lexeme) (ls : List Lexeme) (n : Nat) :
    ahead (l :: ls) (n + 1) = ahead ls n := rfl

/-- What stands ahead within the first of two lists belongs to it. -/
theorem ahead_append_mem {front : List Lexeme} {n : Nat} (h : n < front.length)
    (rest : List Lexeme) : ahead (front ++ rest) n ∈ front := by
  rw [ahead, List.getD_eq_getElem?_getD, List.getElem?_append_left h,
    List.getElem?_eq_getElem h]
  exact List.getElem_mem h

/-- Whether a lexeme is a given word. -/
def isWord (l : Lexeme) (word : Text) : Bool :=
  l.kind = .identifier && l.text = word

theorem isWord_word (t word : Text) : (Lexeme.word t).isWord word = decide (t = word) := by
  rw [isWord, Lexeme.word, decide_eq_true rfl, Bool.true_and]

/-- Only words are words. -/
theorem isWord_of_kind {l : Lexeme} (h : l.kind ≠ .identifier) (word : Text) :
    l.isWord word = false := by
  rw [isWord, decide_eq_false h, Bool.false_and]

end Lexeme

open Lexeme (ahead word mark separated)

/-! ### Readers without comments -/

/-- A reader whose tokens carry no comment, with `d` open bodies. -/
structure Reader.Bare (d : Nat) (r : Reader) : Prop where
  rest : ∀ t ∈ r.rest, t.Bare
  taken : ∀ t ∈ r.taken, t.Bare
  finish : r.finish.Bare
  last : r.finish.lexeme = Lexeme.finish
  dangling : r.dangling = none
  depth : r.depth = d

/-- The lexemes of the tokens that are left. -/
def Reader.lexemes (r : Reader) : List Lexeme :=
  r.rest.map Token.lexeme

namespace Reader

variable {d : Nat}

/-- What a reader sees at a distance is the lexeme there. -/
theorem Bare.lexeme_peek {r : Reader} (hr : r.Bare d) (n : Nat) :
    (r.peek n).lexeme = ahead r.lexemes n := by
  rw [peek, ahead, lexemes, ← hr.last, List.getD_eq_getElem?_getD, List.getD_eq_getElem?_getD,
    List.getElem?_map]
  cases r.rest[n]? with
  | none => rfl
  | some t => rfl

theorem Bare.peek {r : Reader} (hr : r.Bare d) (n : Nat) : (r.peek n).Bare := by
  rw [Reader.peek, List.getD_eq_getElem?_getD]
  cases h : r.rest[n]? with
  | none => exact hr.finish
  | some t => exact hr.rest t (List.mem_of_getElem? h)

/-- The token behind a reader carries no comment either. -/
theorem Bare.previous {r : Reader} (hr : r.Bare d) : r.previous.Bare := by
  unfold Reader.previous
  cases h : r.taken with
  | nil => exact hr.peek 0
  | cons t ts => exact hr.taken t (h ▸ List.mem_cons_self)

/-- Taking a token that is there. -/
theorem Bare.advance {r : Reader} (hr : r.Bare d) {l : Lexeme} {ls : List Lexeme}
    (h : r.lexemes = l :: ls) :
    r.advance.Bare d ∧ r.advance.lexemes = ls ∧ r.advance.faults = r.faults := by
  unfold lexemes at h ⊢
  cases hrest : r.rest with
  | nil =>
    rw [hrest] at h
    cases h
  | cons t ts =>
    rw [hrest, List.map_cons, List.cons.injEq] at h
    have ht : t.Bare := hr.rest t (hrest ▸ List.mem_cons_self)
    have step : r.advance = { r with taken := t :: r.taken, rest := ts } := by
      unfold Reader.advance
      simp only [hrest, ht.leading]
    rw [step]
    refine ⟨⟨fun u hu => ?_, fun u hu => ?_, hr.finish, hr.last, hr.dangling, hr.depth⟩, h.2, rfl⟩
    · exact hr.rest u (hrest ▸ List.mem_cons_of_mem t hu)
    · rcases List.mem_cons.1 hu with rfl | hu
      · exact ht
      · exact hr.taken u hu

end Reader

namespace Rule

variable {α β γ : Type} {d : Nat}

/-! ### Reading -/

/-- In front of `before`, with `d` open bodies, a rule takes tokens until `after` is left,
without a fault, and gives a result that satisfies `P`. -/
def Reads (d : Nat) (x : Rule α) (before after : List Lexeme) (P : α → Prop) : Prop :=
  ∀ r : Reader, r.Bare d → r.lexemes = before →
    ∃ a s, x r = .ok a s ∧ s.Bare d ∧ s.lexemes = after ∧ s.faults = r.faults ∧ P a

namespace Reads

variable {x : Rule α} {f : α → Rule β} {A B C : List Lexeme} {P : α → Prop} {Q : β → Prop}

/-- A rule that takes nothing. -/
theorem pure {a : α} (h : P a) : Reads d (pure a : Rule α) A A P :=
  fun r hr hA => ⟨a, r, rfl, hr, hA, rfl, h⟩

/-- **Rules that read one after the other read together.** -/
theorem bind (hx : Reads d x A B P) (hf : ∀ a, P a → Reads d (f a) B C Q) :
    Reads d (x >>= f) A C Q := by
  intro r hr hA
  obtain ⟨a, s, run, hs, hB, same, ha⟩ := hx r hr hA
  obtain ⟨b, t, run', ht, hC, same', hb⟩ := hf a ha s hs hB
  exact ⟨b, t, (run_bind_ok run f).trans run', ht, hC, same'.trans same, hb⟩

theorem imp (h : Reads d x A B P) {P' : α → Prop} (hP : ∀ a, P a → P' a) : Reads d x A B P' := by
  intro r hr hA
  obtain ⟨a, s, run, hs, hB, same, ha⟩ := h r hr hA
  exact ⟨a, s, run, hs, hB, same, hP a ha⟩

/-- What a rule reads off the reader is known from the lexemes. -/
theorem look {a : α} (h : ∀ r : Reader, r.Bare d → r.lexemes = A → x r = .ok a r) :
    Reads d x A A (· = a) :=
  fun r hr hA => ⟨a, r, h r hr hA, hr, hA, rfl, rfl⟩

/-- A rule that first looks ahead. -/
theorem after {a : α} (hx : Reads d x A A (· = a)) (hf : Reads d (f a) A C Q) :
    Reads d (x >>= f) A C Q :=
  hx.bind fun _ h => h ▸ hf

theorem ite_pos {c : Prop} [Decidable c] {y z : Rule α} (hc : c) (hy : Reads d y A B P) :
    Reads d (if c then y else z) A B P := by
  rwa [if_pos hc]

theorem ite_neg {c : Prop} [Decidable c] {y z : Rule α} (hc : ¬c) (hz : Reads d z A B P) :
    Reads d (if c then y else z) A B P := by
  rwa [if_neg hc]

end Reads

/-- A token with a given lexeme and no comment. -/
def Shows (l : Lexeme) (t : Token) : Prop :=
  t.lexeme = l ∧ t.Bare

theorem Shows.text {l : Lexeme} {t : Token} (h : Shows l t) : t.text = l.text := by
  rw [← h.1, Token.lexeme_text]

theorem Shows.kind {l : Lexeme} {t : Token} (h : Shows l t) : t.kind = l.kind := by
  rw [← h.1, Token.lexeme_kind]

theorem Shows.isWord {l : Lexeme} {t : Token} (h : Shows l t) (word : Text) :
    t.isWord word = l.isWord word := by
  rw [Token.isWord, Lexeme.isWord, h.kind, h.text]

/-! ### Looking ahead -/

section Look

variable {A : List Lexeme}

theorem reads_current : Reads d current A A (Shows (ahead A 0)) :=
  fun r hr hA => ⟨_, r, run_current r, hr, hA, rfl, hA ▸ hr.lexeme_peek 0, hr.peek 0⟩

theorem reads_peek (n : Nat) : Reads d (peek n) A A (Shows (ahead A n)) :=
  fun r hr hA => ⟨_, r, run_peek n r, hr, hA, rfl, hA ▸ hr.lexeme_peek n, hr.peek n⟩

theorem reads_previous : Reads d previous A A Token.Bare :=
  fun r hr hA => ⟨_, r, run_previous r, hr, hA, rfl, hr.previous⟩

theorem reads_check (kind : TokenKind) :
    Reads d (check kind) A A (· = decide ((ahead A 0).kind = kind)) := by
  refine Reads.look fun r hr hA => ?_
  rw [run_check, ← hA, ← hr.lexeme_peek 0]
  rfl

theorem reads_checkWord (word : Text) :
    Reads d (checkWord word) A A (· = (ahead A 0).isWord word) := by
  refine Reads.look fun r hr hA => ?_
  rw [run_checkWord, ← hA, ← hr.lexeme_peek 0]
  rfl

theorem reads_checkWord_same (word : Text) {ls : List Lexeme} :
    Reads d (checkWord word) (Lexeme.word word :: ls) (Lexeme.word word :: ls) (· = true) := by
  refine (reads_checkWord word).imp fun b hb => ?_
  rw [hb, Lexeme.ahead_cons_zero, Lexeme.isWord_word, decide_eq_true rfl]

theorem reads_checkWord_other {word : Text} (h : (ahead A 0).isWord word = false) :
    Reads d (checkWord word) A A (· = false) :=
  (reads_checkWord word).imp fun _ hb => hb.trans h

/-- Without comments there is none to claim. -/
theorem reads_claimComment {first : Token} (bare : first.Bare) :
    Reads d (claimComment first) A A (· = none) := by
  intro r hr hA
  have same : ({ r with dangling := none } : Reader) = r := by
    rw [← hr.dangling]
  refine ⟨none, r, ?_, hr, hA, rfl, rfl⟩
  change EStateM.Result.ok ((spoken first.leading).or r.dangling) { r with dangling := none } = _
  rw [bare.leading, hr.dangling, same]
  rfl

/-- A declaration without comments says nothing but where it stands. -/
theorem reads_close {first : Token} {brace : Option Token} (bare : ∀ t ∈ brace, t.Bare) :
    Reads d (close first none brace) A A (·.unplaced = NodeInfo.blank) := by
  refine reads_previous.bind fun last hlast => Reads.pure ?_
  have silent : brace.bind (·.trailing) = none := by
    cases brace with
    | none => rfl
    | some t => exact (bare t rfl).trailing
  rw [silent, hlast.trailing]
  rfl

end Look

/-! ### Taking tokens -/

section Take

variable {l : Lexeme} {ls : List Lexeme}

theorem reads_advance : Reads d advance (l :: ls) ls (Shows l) := by
  intro r hr hA
  obtain ⟨bare, left, same⟩ := hr.advance hA
  have here := hr.lexeme_peek 0
  rw [hA] at here
  exact ⟨_, _, run_advance r, bare, left, same, here, hr.peek 0⟩

theorem reads_accept {kind : TokenKind} (h : l.kind = kind) :
    Reads d (accept kind) (l :: ls) ls (· = true) := by
  refine (reads_check kind).after (Reads.ite_pos ?_ ?_)
  · rw [Lexeme.ahead_cons_zero, decide_eq_true h]
  · exact reads_advance.bind fun _ _ => Reads.pure rfl

/-- A kind that is not there is not taken. -/
theorem reads_accept_not {kind : TokenKind} {A : List Lexeme} (h : (ahead A 0).kind ≠ kind) :
    Reads d (accept kind) A A (· = false) := by
  refine (reads_check kind).after (Reads.ite_neg ?_ (Reads.pure rfl))
  rw [decide_eq_false h]
  exact Bool.false_ne_true

theorem reads_expect {kind : TokenKind} (what : Text) (h : l.kind = kind) :
    Reads d (expect kind what) (l :: ls) ls (Shows l) := by
  refine (reads_check kind).after (Reads.ite_pos ?_ reads_advance)
  rw [Lexeme.ahead_cons_zero, decide_eq_true h]

theorem reads_expectWord (word what : Text) :
    Reads d (expectWord word what) (Lexeme.word word :: ls) ls (Shows (Lexeme.word word)) :=
  (reads_checkWord_same word).after (Reads.ite_pos rfl reads_advance)

theorem reads_keyword (word : Text) :
    Reads d (keyword word) (Lexeme.word word :: ls) ls (Shows (Lexeme.word word)) :=
  reads_expectWord word _

end Take

/-! ### Lists -/

section Lists

variable {spell : β → List Lexeme} {f : α → γ} {g : β → γ}

/-- A step that gives something for each of some items reads them all. -/
theorem reads_repeatUpTo {step : Rule (Option α)} {follow : List Lexeme → Prop}
    {items : List β} {rest left : List Lexeme}
    (more : ∀ b ∈ items, ∀ next, follow next →
      Reads d step (spell b ++ next) next fun o => ∃ a, o = some a ∧ f a = g b)
    (follows : ∀ b ∈ items, ∀ next, follow (spell b ++ next)) (last : follow rest)
    (stop : Reads d step rest left (· = none)) {fuel : Nat} (enough : items.length < fuel) :
    Reads d (repeatUpTo step fuel) (items.flatMap spell ++ rest) left
      fun as => as.map f = items.map g := by
  induction items generalizing fuel with
  | nil =>
    obtain ⟨fuel, rfl⟩ := Nat.exists_eq_add_one_of_ne_zero (Nat.ne_of_gt enough)
    refine stop.bind ?_
    rintro _ rfl
    exact Reads.pure rfl
  | cons b bs ih =>
    obtain ⟨fuel, rfl⟩ := Nat.exists_eq_add_one_of_ne_zero (show fuel ≠ 0 by omega)
    rw [List.flatMap_cons, List.append_assoc]
    have next : follow (bs.flatMap spell ++ rest) := by
      cases bs with
      | nil => exact last
      | cons b' bs =>
        rw [List.flatMap_cons, List.append_assoc]
        exact follows b' (by simp) _
    refine (more b List.mem_cons_self _ next).bind ?_
    rintro _ ⟨a, rfl, ha⟩
    refine (ih (fun b' hb => more b' (List.mem_cons_of_mem b hb))
      (fun b' hb => follows b' (List.mem_cons_of_mem b hb))
      (by simpa using enough)).bind fun as has => Reads.pure ?_
    rw [List.map_cons, List.map_cons, ha, has]

/-- Items that are not empty are at most as many as their lexemes. -/
theorem length_le_length_flatMap {items : List β} (nonempty : ∀ b ∈ items, spell b ≠ []) :
    items.length ≤ (items.flatMap spell).length := by
  induction items with
  | nil => exact Nat.le_refl _
  | cons b bs ih =>
    have here : 0 < (spell b).length := List.length_pos_iff.2 (nonempty b List.mem_cons_self)
    have others := ih fun b' hb => nonempty b' (List.mem_cons_of_mem b hb)
    rw [List.flatMap_cons, List.length_append, List.length_cons]
    omega

/-- The tokens that are left bound the number of rounds. -/
theorem reads_many {step : Rule (Option α)} (follow : List Lexeme → Prop)
    {items : List β} {rest left : List Lexeme}
    (more : ∀ b ∈ items, ∀ next, follow next →
      Reads d step (spell b ++ next) next fun o => ∃ a, o = some a ∧ f a = g b)
    (follows : ∀ b ∈ items, ∀ next, follow (spell b ++ next)) (last : follow rest)
    (stop : Reads d step rest left (· = none)) (nonempty : ∀ b ∈ items, spell b ≠ []) :
    Reads d (many step) (items.flatMap spell ++ rest) left fun as => as.map f = items.map g := by
  intro r hr hA
  have enough : items.length < r.rest.length + 1 := by
    have total : r.rest.length = (items.flatMap spell ++ rest).length := by
      rw [← hA, Reader.lexemes, List.length_map]
    have := length_le_length_flatMap nonempty
    rw [List.length_append] at total
    omega
  exact reads_repeatUpTo more follows last stop enough r hr hA

/-- The first of some lists, and a separator in front of each of the others. -/
theorem separated_cons (kind : TokenKind) (part : List Lexeme) (parts : List (List Lexeme)) :
    separated kind (part :: parts) = part ++ parts.flatMap (mark kind :: ·) := by
  induction parts generalizing part with
  | nil => rw [separated, List.flatMap_nil, List.append_nil]
  | cons next parts ih =>
    rw [separated, ih, List.flatMap_cons, List.cons_append]
    exact List.cons_ne_nil _ _

/-- **A list with separators reads if its elements do**, each in front of the
separator and of what follows the list. -/
theorem reads_separatedBy {kind : TokenKind} {element : Rule α} (follow : TokenKind → Prop)
    {items : List β} (some : items ≠ []) {rest : List Lexeme}
    (each : ∀ b ∈ items, ∀ next, follow (ahead next 0).kind →
      Reads d element (spell b ++ next) next fun a => f a = g b)
    (between : follow kind) (last : follow (ahead rest 0).kind)
    (stop : (ahead rest 0).kind ≠ kind) :
    Reads d (separatedBy kind element) (separated kind (items.map spell) ++ rest) rest
      fun as => as.map f = items.map g := by
  obtain ⟨b, bs, rfl⟩ := List.exists_cons_of_ne_nil some
  rw [List.map_cons, separated_cons, List.append_assoc, List.flatMap_map]
  have next : follow (ahead (bs.flatMap (fun b => mark kind :: spell b) ++ rest) 0).kind := by
    cases bs with
    | nil => exact last
    | cons b' bs => exact between
  refine (each b List.mem_cons_self _ next).bind fun a ha => ?_
  have more : ∀ b' ∈ bs, ∀ next, follow (ahead next 0).kind →
      Reads d (do if ← accept kind then return Option.some (← element) else return none)
        ((mark kind :: spell b') ++ next) next fun o => ∃ a, o = Option.some a ∧ f a = g b' := by
    intro b' hb next hnext
    refine (reads_accept rfl).bind ?_
    rintro _ rfl
    exact (each b' (List.mem_cons_of_mem b hb) next hnext).bind
      fun a ha => Reads.pure ⟨a, rfl, ha⟩
  have final : Reads d (do if ← accept kind then return Option.some (← element) else return none)
      rest rest (· = none) :=
    (reads_accept_not stop).after (Reads.pure rfl)
  refine (reads_many (fun next => follow (ahead next 0).kind) more (fun _ _ _ => between) last final
    (by simp)).bind
    fun as has => Reads.pure ?_
  rw [List.map_cons, List.map_cons, ha, has]

/-- One round of a body reads what its member reads. -/
theorem reads_memberStep {block : Block} {member : Rule (Option α)} {P : Option α → Prop}
    {l : Lexeme} {ls left : List Lexeme} (reads : Reads d member (l :: ls) left P)
    (opens : l.kind ≠ .rightBrace) :
    Reads d (memberStep block member) (l :: ls) left fun o => ∃ a, o = some a ∧ P a := by
  intro r hr hA
  obtain ⟨o, s, run, hs, rest, same, ho⟩ := reads r hr hA
  have right : r.current.kind ≠ .rightBrace := by
    have here := hr.lexeme_peek 0
    rw [hA, Lexeme.ahead_cons_zero] at here
    rw [← here] at opens
    exact opens
  have there : r.rest ≠ [] := by
    intro empty
    rw [Reader.lexemes, empty] at hA
    cases hA
  refine ⟨some o, s, ?_, hs, rest, same, o, rfl, ho⟩
  rw [run_memberStep block right there]
  exact run_recovering_ok (run_map_ok run some) _

/-- Nothing is dropped from a list of results that are all there. -/
theorem map_filterMap_id {os : List (Option α)} {bs : List β}
    (h : os.map (·.map f) = bs.map fun b => some (g b)) :
    (os.filterMap id).map f = bs.map g := by
  have kept : os.filterMap (fun o => (id o).map f) = (os.map (·.map f)).filterMap id := by
    rw [List.filterMap_map]
    rfl
  rw [List.map_filterMap, kept, h, List.filterMap_map]
  simp

/-- **A body reads if its members do.** -/
theorem reads_members {block : Block} {member : Rule (Option α)} {body : List β}
    {rest : List Lexeme}
    (each : ∀ b ∈ body, ∀ next,
      Reads d member (spell b ++ next) next fun o => ∃ a, o = some a ∧ f a = g b)
    (starts : ∀ b ∈ body, ∃ l ls, spell b = l :: ls ∧ l.kind ≠ .rightBrace) :
    Reads d (members block member) (body.flatMap spell ++ mark .rightBrace :: rest) rest
      fun as => as.map f = body.map g := by
  have more : ∀ b ∈ body, ∀ next, True →
      Reads d (memberStep block member) (spell b ++ next) next
        fun o => ∃ a, o = some a ∧ a.map f = some (g b) := by
    intro b hb next _
    obtain ⟨l, ls, written, opens⟩ := starts b hb
    have read := each b hb next
    rw [written, List.cons_append] at read ⊢
    refine (reads_memberStep read opens).imp ?_
    rintro _ ⟨_, rfl, a, rfl, ha⟩
    exact ⟨some a, rfl, congrArg some ha⟩
  have final : Reads d (memberStep block member) (mark .rightBrace :: rest) rest (· = none) := by
    refine (reads_accept rfl).bind ?_
    rintro _ rfl
    exact Reads.pure rfl
  have nonempty : ∀ b ∈ body, spell b ≠ [] := by
    intro b hb empty
    obtain ⟨l, ls, written, -⟩ := starts b hb
    rw [empty] at written
    cases written
  -- A lone `;` gives nothing and is dropped, so each member has to give something.
  exact (reads_many (fun _ => True) more (fun _ _ _ => trivial) trivial final nonempty).bind
    fun os hos => Reads.pure (map_filterMap_id hos)

/-- What reads inside a body reads the body, where one more may be open. -/
theorem reads_body {block : Block} {member : Rule (Option α)} {A B : List Lexeme}
    {P : List α → Prop} (room : d < maxNesting)
    (inner : Reads (d + 1) (members block member) A B P) :
    Reads d (body block member) A B P := by
  intro r hr hA
  have entered : r.enter.Bare (d + 1) :=
    ⟨hr.rest, hr.taken, hr.finish, hr.last, hr.dangling, congrArg Nat.succ hr.depth⟩
  obtain ⟨as, s, run, hs, hB, same, result⟩ := inner r.enter entered hA
  refine ⟨as, s.leave, ?_, ?_, hB, same, result⟩
  · rw [run_body, if_neg (Nat.not_le.2 (hr.depth ▸ room)), run_inside_ok run]
  · exact ⟨hs.rest, hs.taken, hs.finish, hs.last, hs.dangling, congrArg Nat.pred hs.depth⟩

end Lists

end Rule

end ProtoAtlas
