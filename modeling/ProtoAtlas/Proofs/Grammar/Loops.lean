/-
# The loops over members and over statements

A statement gives at most one node, or it stumbles (`Statement.cases`).  The loops put
statements together: what is left of a faulty one is passed over, and each takes at least
one token, so that the tokens left bound their number.  So a body is read up to its closing
brace (`tracedBody_body`) and a file up to its end (`gives_itemsUpTo`).
-/

import ProtoAtlas.Proofs.Grammar.Traced

namespace ProtoAtlas
namespace Reader

/-- One reader becomes another one in a way, and the nodes between them have certain kinds
and fit into the levels that are left. -/
structure Gives (Way : Reader → Reader → Prop) (kinds : List NodeKind) (r : Reader)
    (ns : List Node) (s : Reader) : Prop where
  way : Way r s
  lays : r.Lays ns s
  fits : ∀ n ∈ ns, n.kind ∈ kinds ∧ n.Fits (maxNesting - r.depth)

variable {limit : Nat} {r s t : Reader} {f : SyntaxFault} {kinds : List NodeKind}
variable {ns ms : List Node} {Way Way' : Reader → Reader → Prop}

theorem Declared.gives {n : Node} (h : r.Declared limit n s) (kind : n.kind ∈ kinds) :
    r.Gives (Finishes limit) kinds [n] s where
  way := h.finishes
  lays := h.lays
  fits := fun _ hn => List.mem_singleton.1 hn ▸ ⟨kind, h.fits⟩

/-- What is read behind other nodes. -/
theorem Gives.behind (h : s.Gives Way kinds ms t) (lays : r.Lays ns s)
    (fits : ∀ n ∈ ns, n.kind ∈ kinds ∧ n.Fits (maxNesting - r.depth)) (way : Way' r t) :
    r.Gives Way' kinds (ns ++ ms) t where
  way := way
  lays := lays.trans h.lays
  fits := fun n hn => by
    obtain ⟨w, pass⟩ := lays.exists_passes
    rcases List.mem_append.1 hn with hn | hn
    · exact fits n hn
    · rw [← pass.depth]
      exact h.fits n hn

/-- What is left of a faulty statement is passed over by a token at least. -/
theorem Stumbles.exists_passes_advanceBy (h : r.Stumbles f s) {n : Nat}
    (there : r.rest ≠ []) (pos : s.rest = r.rest → 0 < n) :
    ∃ w, r.Passes w ((s.record f).advanceBy n) ∧ w ≠ [] := by
  obtain ⟨w, pass, -⟩ := h.way
  refine ⟨_, pass.trans ((s.passes_record f).trans ((s.record f).passes_advanceBy n)), ?_⟩
  intro nothing
  rw [List.append_eq_nil_iff, List.nil_append, List.take_eq_nil_iff] at nothing
  obtain ⟨rfl, none⟩ := nothing
  have same : s.rest = r.rest := pass.rest.symm
  rcases none with zero | ended
  · exact absurd zero (Nat.ne_of_gt (pos same))
  · exact there (same.symm.trans ended)

theorem Stumbles.exists_passes_skipMember (h : r.Stumbles f s) (there : r.rest ≠ [])
    (right : r.current.kind ≠ .rightBrace) :
    ∃ w, r.Passes w (s.record f).skipMember ∧ w ≠ [] := by
  refine h.exists_passes_advanceBy there fun same => ?_
  obtain ⟨t, ts, rest⟩ := List.exists_cons_of_ne_nil there
  rw [current_of_rest rest] at right
  rw [show (s.record f).rest = t :: ts from same.trans rest]
  exact Token.memberLength_pos right ts

theorem Stumbles.exists_passes_skipStatement (h : r.Stumbles f s) (there : r.rest ≠ []) :
    ∃ w, r.Passes w (s.record f).skipStatement ∧ w ≠ [] := by
  refine h.exists_passes_advanceBy there fun same => ?_
  obtain ⟨t, ts, rest⟩ := List.exists_cons_of_ne_nil there
  rw [show (s.record f).rest = t :: ts from same.trans rest]
  exact Token.statementLength_pos t ts

theorem Passes.length_rest_lt {w : List Token} (h : r.Passes w s) (ne : w ≠ []) :
    s.rest.length < r.rest.length := by
  have length := congrArg List.length h.rest
  have pos := List.length_pos_iff.2 ne
  rw [List.length_append] at length
  omega

/-- A member that is read through its end is one of its body. -/
theorem Finishes.membersRead (h : r.Finishes limit s) (right : r.current.kind ≠ .rightBrace)
    (tail : MembersRead limit s t) : MembersRead limit r t := by
  cases h with
  | plain goes => exact .plain right goes tail
  | block goes body =>
    cases body with
    | entered room inner => exact .block right goes room inner tail
    | tooDeep full block => exact .tooDeep right goes full block tail

end Reader

namespace Rule

variable {α : Type} {limit d : Nat} {kinds : List NodeKind} {x : Rule (Option α)}
variable {node : α → Node} {r : Reader}

/-- **A statement is read through its end, or it stumbles.** -/
theorem Statement.cases (h : Statement limit d kinds x node) (hr : r.Lexed) (depth : r.depth = d) :
    (∃ o s, x r = .ok o s ∧ r.Gives (Reader.Finishes limit) kinds (o.toList.map node) s) ∨
      ∃ f s, x r = .error (.fault f) s ∧ r.Stumbles f s := by
  by_cases semicolon : r.current.kind = .semicolon
  · have pass := hr.passes_advance_current (by simp [semicolon])
    refine Or.inl ⟨none, r.advance, h.empty r semicolon, ?_, ?_, nofun⟩
    · exact .plain ⟨.refl r, pass, semicolon⟩
    · exact (pass.spends r.comments_advance.subperm).lays_nil
  · have runs := h.full r hr depth semicolon
    cases run : x r with
    | ok o s =>
      obtain ⟨a, rfl, kind, declared⟩ := runs.ok run
      exact Or.inl ⟨some a, s, rfl, declared.gives kind⟩
    | error e s =>
      cases e with
      | fault f => exact Or.inr ⟨f, s, rfl, runs.fault run⟩
      | literal e => exact absurd run runs.literal

/-! ### Bodies -/

/-- **The members of a body are read one by one**, up to the brace that closes it. -/
theorem gives_repeatUpTo (h : Statement limit d kinds x node) (block : Block) (fuel : Nat)
    (hr : r.Lexed) (depth : r.depth = d) (enough : r.rest.length < fuel) :
    ∃ os s, repeatUpTo (memberStep block x) fuel r = .ok os s ∧
      r.Gives (Reader.MembersRead limit) kinds ((os.filterMap id).map node) s := by
  induction fuel generalizing r with
  | zero => exact absurd enough (Nat.not_lt_zero _)
  | succ fuel ih =>
    by_cases right : r.current.kind = .rightBrace
    · obtain ⟨ts, rest⟩ := hr.rest_eq (by simp [right])
      refine ⟨[], r.advance, run_repeatUpTo_last (run_memberStep_closed block right) fuel, ?_⟩
      refine ⟨.closed rest right, ?_, nofun⟩
      exact (r.passes_advance.spends r.comments_advance.subperm).lays_nil
    by_cases ended : r.rest = []
    · refine ⟨[], _, run_repeatUpTo_last (run_memberStep_unclosed block right ended) fuel, ?_⟩
      refine ⟨.unclosed block ended, ?_, nofun⟩
      exact ((r.passes_record _).spends (List.Subperm.refl _)).lays_nil
    rcases h.cases hr depth with ⟨o, s, run, gives⟩ | ⟨f, s, run, stumbles⟩
    · obtain ⟨w, pass, ne⟩ := gives.way.exists_passes
      obtain ⟨os, t, rest, more⟩ := ih (pass.lexed hr) (pass.depth.trans depth)
        (Nat.lt_of_lt_of_le (pass.length_rest_lt ne) (Nat.le_of_lt_succ enough))
      refine ⟨o :: os, t, ?_, ?_⟩
      · rw [run_repeatUpTo_succ (run_memberStep_ok block right ended run)]
        exact run_map_ok rest _
      · have whole := more.behind gives.lays gives.fits (gives.way.membersRead right more.way)
        rw [← List.map_append] at whole
        cases o <;> exact whole
    · obtain ⟨w, pass, ne⟩ := stumbles.exists_passes_skipMember ended right
      obtain ⟨os, t, rest, more⟩ := ih (pass.lexed hr) (pass.depth.trans depth)
        (Nat.lt_of_lt_of_le (pass.length_rest_lt ne) (Nat.le_of_lt_succ enough))
      refine ⟨none :: os, t, ?_, ?_⟩
      · rw [run_repeatUpTo_succ (run_memberStep_fault block right ended run)]
        exact run_map_ok rest _
      · exact more.behind (stumbles.lays _) nofun (.faulty right stumbles more.way)

theorem gives_members (h : Statement limit d kinds x node) (block : Block) (hr : r.Lexed)
    (depth : r.depth = d) :
    ∃ as s, members block x r = .ok as s ∧
      r.Gives (Reader.MembersRead limit) kinds (as.map node) s := by
  obtain ⟨os, s, run, gives⟩ := gives_repeatUpTo h block (r.rest.length + 1) hr depth
    (Nat.lt_succ_self _)
  have loop : many (memberStep block x) r = .ok os s := run
  exact ⟨_, s, (run_bind_ok loop _).trans rfl, gives⟩

/-- A body that is too deep is passed over. -/
theorem tracedBody_tooDeep (block : Block) (full : limit ≤ d) :
    TracedBody limit d kinds (tooDeep block) node := by
  intro r _ depth
  refine ⟨[], (r.record ⟨.tooDeep block, r.current.span⟩).skipBlock, rfl, ?_⟩
  refine ⟨.tooDeep (depth ▸ full) block, ?_, Node.fitIn_nil kinds _⟩
  refine Reader.Spends.lays_nil (((r.passes_record _).trans
    (Reader.passes_advanceBy _ _)).spends ?_)
  exact (Reader.comments_advanceBy _ _).subperm

/-- **A body is read up to its closing brace**, unless too many are open. -/
theorem tracedBody_body (below : limit ≤ maxNesting) (block : Block)
    (h : Statement limit (d + 1) kinds x node) : TracedBody limit d kinds (body block x) node := by
  intro r hr depth
  by_cases full : maxNesting ≤ r.depth
  · rw [run_body, if_pos full]
    exact tracedBody_tooDeep block (Nat.le_trans below (depth ▸ full)) r hr depth
  · obtain ⟨as, s, run, gives⟩ := gives_members h block (r := r.enter) ⟨hr.rest, hr.finish⟩
      (congrArg (· + 1) depth)
    have room : r.depth < maxNesting := Nat.lt_of_not_le full
    refine ⟨as, s.leave, ?_, .entered room gives.way, ?_, ?_⟩
    · rw [run_body, if_neg full]
      exact run_inside_ok run
    · obtain ⟨w, spends, row⟩ := gives.lays
      exact ⟨w, ⟨spends.passes.leave, spends.comments⟩, row⟩
    · have levels : maxNesting - r.depth = maxNesting - r.enter.depth + 1 := by
        show maxNesting - r.depth = maxNesting - (r.depth + 1) + 1
        omega
      rw [levels]
      exact gives.fits

/-! ### Files -/

section Files

variable {node : Item → Node}

theorem gives_itemsUpTo_atEnd (ended : r.rest = []) (fuel : Nat) (earlier : List Item) :
    ∃ new s, itemsUpTo fuel earlier r = .ok (earlier.reverse ++ new) s ∧ s.rest = [] ∧
      r.Gives (Reader.FileRead limit) kinds (new.map node) s := by
  refine ⟨[], r, ?_, ended, .done ended, (Reader.Goes.refl r).spends.lays_nil, nofun⟩
  rw [run_itemsUpTo_atEnd ended, List.append_nil]

/-- **A file is read statement by statement**, up to its end. -/
theorem gives_itemsUpTo (h : ∀ earlier, Statement limit 0 kinds (item earlier) node) (fuel : Nat)
    (earlier : List Item) (hr : r.Lexed) (depth : r.depth = 0) (enough : r.rest.length ≤ fuel) :
    ∃ new s, itemsUpTo fuel earlier r = .ok (earlier.reverse ++ new) s ∧ s.rest = [] ∧
      r.Gives (Reader.FileRead limit) kinds (new.map node) s := by
  induction fuel generalizing earlier r with
  | zero => exact gives_itemsUpTo_atEnd (List.length_eq_zero_iff.1 (Nat.le_zero.1 enough)) 0 _
  | succ fuel ih =>
    by_cases ended : r.rest = []
    · exact gives_itemsUpTo_atEnd ended _ _
    rcases (h earlier).cases hr depth with ⟨o, s, run, gives⟩ | ⟨f, s, run, stumbles⟩
    · obtain ⟨w, pass, ne⟩ := gives.way.exists_passes
      have fewer := pass.length_rest_lt ne
      obtain ⟨new, t, rest, done, more⟩ := ih (o.toList ++ earlier) (pass.lexed hr)
        (pass.depth.trans depth) (by omega)
      have whole := more.behind gives.lays gives.fits
        (Reader.FileRead.statement gives.way more.way)
      rw [← List.map_append] at whole
      refine ⟨o.toList ++ new, t, ?_, done, whole⟩
      rw [run_itemsUpTo_succ ended (run_itemStep_ok run), rest, List.reverse_append]
      cases o <;> simp
    · obtain ⟨w, pass, ne⟩ := stumbles.exists_passes_skipStatement ended
      have fewer := pass.length_rest_lt ne
      obtain ⟨new, t, rest, done, more⟩ := ih earlier (pass.lexed hr) (pass.depth.trans depth)
        (by omega)
      refine ⟨new, t, ?_, done, more.behind (stumbles.lays _) nofun (.faulty stumbles more.way)⟩
      exact (run_itemsUpTo_succ ended (run_itemStep_fault run) fuel).trans rest

end Files
end Rule
end ProtoAtlas
