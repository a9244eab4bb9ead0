/-
# Faults come in source order

The faults of a file are at tokens of its text, one behind the other, and no token but the
end of the file has two of them (`faults_in_source_order`).

From one reader to a later one the faults recorded are at tokens taken in between, in their
order, and then at the end of the file, if it is reached (`Reader.Reports`).  This holds of
every step of a reading and so of all of it.  The one step where it fails by itself is a
member that stumbles over the closing brace of its body, which passing over the rest of the
member leaves in place.  But then the body has to end there, and takes the brace
(`MembersRead.closed_of_right`).
-/

import Mathlib.Data.List.Infix
import ProtoAtlas.Proofs.Grammar.TracedRules
import ProtoAtlas.Proofs.Source.Placed

namespace ProtoAtlas
namespace Reader

/-! ### The faults of a step -/

/-- The places of the faults recorded, the earliest first. -/
def faultSpans (r : Reader) : List Span := (r.faults.map (·.span)).reverse

/-- The faults recorded from one reader to another are at tokens taken in between, in their
order, and then at the end of the file. -/
def Reports (r s : Reader) : Prop :=
  ∃ (w : List Token) (inner : List Span) (k : Nat), r.Passes w s ∧
    s.faultSpans = r.faultSpans ++ inner ++ List.replicate k r.finish.span ∧
    inner.Sublist (w.map (·.span)) ∧ (k ≠ 0 → s.rest = [])

theorem faultSpans_record (r : Reader) (f : SyntaxFault) :
    (r.record f).faultSpans = r.faultSpans ++ [f.span] := by
  simp [faultSpans, record]

variable {limit : Nat} {r s t : Reader} {f : SyntaxFault} {w : List Token}

theorem Passes.reports (pass : r.Passes w s) (same : s.faults = r.faults) : r.Reports s :=
  ⟨w, [], 0, pass, by simp [faultSpans, same], List.nil_sublist _, by simp⟩

theorem GoesTo.reports {kind : TokenKind} (h : r.GoesTo kind s) : r.Reports s := by
  obtain ⟨w, pass, -⟩ := h.exists_passes
  exact pass.reports h.faults

theorem Reports.trans (h : r.Reports s) (h' : s.Reports t) : r.Reports t := by
  obtain ⟨v, inner, k, before, spans, sub, ended⟩ := h
  obtain ⟨w, inner', k', behind, spans', sub', ended'⟩ := h'
  have pass := before.trans behind
  rw [before.finish] at spans'
  by_cases k = 0
  · next none =>
    refine ⟨v ++ w, inner ++ inner', k', pass, ?_, ?_, ended'⟩
    · rw [spans', spans, none, List.replicate_zero, List.append_nil, ← List.append_assoc]
    · rw [List.map_append]
      exact sub.append sub'
  · next some =>
    -- Behind a fault at the end of the file nothing is left to be taken.
    obtain ⟨rfl, nothing⟩ := behind.eq_nil (ended some)
    rw [List.map_nil, List.sublist_nil] at sub'
    refine ⟨v ++ [], inner, k + k', pass, ?_, by rwa [List.append_nil], fun _ => nothing⟩
    rw [spans', spans, sub', List.append_nil, List.append_assoc, List.replicate_append_replicate]

/-- A fault at the next token, if then this token is taken or there is none. -/
theorem reports_here (here : f.span = r.current.span) (pass : (r.record f).Passes w s)
    (same : s.faults = (r.record f).faults) (taken : w ≠ [] ∨ r.rest = []) : r.Reports s := by
  have whole := (r.passes_record f).trans pass
  have spans : s.faultSpans = r.faultSpans ++ [f.span] := by
    rw [← faultSpans_record, faultSpans, faultSpans, same]
  rw [List.nil_append] at whole
  by_cases ended : r.rest = []
  · have current : r.current = r.finish := by simp [current, peek, ended]
    refine ⟨w, [], 1, whole, ?_, List.nil_sublist _, fun _ => (whole.eq_nil ended).2⟩
    rw [spans, here, current, List.append_nil, List.replicate_one]
  · obtain ⟨first, more, rfl⟩ := List.exists_cons_of_ne_nil (taken.resolve_right ended)
    refine ⟨first :: more, [f.span], 0, whole, by rw [spans]; simp, ?_, by simp⟩
    have current : r.current = first := current_of_rest whole.rest
    rw [here, current, List.map_cons]
    exact (List.nil_sublist _).cons_cons _

/-- A fault that a rule stumbles over is at a token it has taken or at the next one. -/
theorem Stumbles.reports (h : r.Stumbles f s) (pass : (s.record f).Passes w t)
    (same : t.faults = (s.record f).faults) (taken : w ≠ [] ∨ s.rest = []) : r.Reports t := by
  obtain ⟨v, before, -, -, place⟩ := h.way
  rcases place with here | ⟨token, mem, span⟩
  · exact (before.reports h.faults).trans (reports_here here pass same taken)
  · refine Reports.trans (s := s.record f) ?_ (pass.reports same)
    refine ⟨v, [f.span], 0, ?_, ?_, ?_, by simp⟩
    · simpa using before.trans (s.passes_record f)
    · rw [faultSpans_record, faultSpans, h.faults]
      simp [faultSpans]
    · rw [span, List.singleton_sublist]
      exact List.mem_map_of_mem mem

/-! ### Bodies and files -/

/-- In front of its closing brace a body ends. -/
theorem MembersRead.closed_of_right (h : MembersRead limit r s) {brace : Token} {ts : List Token}
    (rest : r.rest = brace :: ts) (right : brace.kind = .rightBrace) :
    s = r.advance := by
  have here : r.current.kind = .rightBrace := by rw [current_of_rest rest, right]
  cases h with
  | closed => rfl
  | unclosed _ ended => exact absurd (rest.symm.trans ended) (List.cons_ne_nil _ _)
  | plain other => exact absurd here other
  | block other => exact absurd here other
  | tooDeep other => exact absurd here other
  | faulty other => exact absurd here other

/-- Passing over tokens takes one, if there is one. -/
theorem take_ne_nil_or {length : List Token → Nat} (long : ∀ t ts, 0 < length (t :: ts))
    (ts : List Token) : ts.take (length ts) ≠ [] ∨ ts = [] := by
  cases ts with
  | nil => exact Or.inr rfl
  | cons t ts => exact Or.inl (by simpa using (long t ts).ne')

/-- The rest of a body that is too deep is passed over. -/
theorem reports_tooDeep (r : Reader) (block : Block) :
    r.Reports (r.record ⟨.tooDeep block, r.current.span⟩).skipBlock := by
  refine reports_here rfl (passes_advanceBy _ _) (faults_advanceBy _ _)
    (@take_ne_nil_or (fun ts => (Token.blockLength? 0 ts).getD ts.length) ?_ r.rest)
  intro t ts
  cases found : Token.blockLength? 0 (t :: ts) with
  | none => exact Nat.succ_pos _
  | some n =>
    obtain ⟨v, -, -, -, rfl, -⟩ := Token.split_of_blockLength? found
    exact Nat.succ_pos _

/-- A member stumbles, and the rest of it is passed over. -/
theorem Stumbles.reports_body (h : r.Stumbles f s)
    (tail : MembersRead limit (s.record f).skipMember t)
    (ih : (s.record f).skipMember.Reports t) : r.Reports t := by
  have pass := (s.record f).passes_advanceBy (Token.memberLength 0 s.rest)
  have same := (s.record f).faults_advanceBy (Token.memberLength 0 s.rest)
  cases rest : s.rest with
  | nil => exact (h.reports pass same (Or.inr rest)).trans ih
  | cons first more =>
    by_cases right : first.kind = .rightBrace
    · -- The brace is left in place, and the body ends with it.
      have stays : (s.record f).skipMember = s.record f := by
        change (s.record f).advanceBy (Token.memberLength 0 s.rest) = _
        rw [rest, Token.memberLength, if_pos right]
        rfl
      rw [stays] at tail
      obtain rfl := tail.closed_of_right rest right
      refine h.reports (passes_advance _) (faults_advance _) (Or.inl ?_)
      change s.rest.take 1 ≠ []
      rw [rest]
      exact List.cons_ne_nil _ _
    · refine (h.reports pass same (Or.inl ?_)).trans ih
      change s.rest.take (Token.memberLength 0 s.rest) ≠ []
      rw [rest]
      simpa using (Token.memberLength_pos right more).ne'

/-- A statement stumbles, and the rest of it is passed over. -/
theorem Stumbles.reports_file (h : r.Stumbles f s) :
    r.Reports (s.record f).skipStatement :=
  h.reports (passes_advanceBy _ _) (faults_advanceBy _ _)
    (take_ne_nil_or Token.statementLength_pos s.rest)

/-- What is reported inside a body is reported from outside it. -/
theorem Reports.leave (h : r.enter.Reports s) : r.Reports s.leave := by
  obtain ⟨w, inner, k, pass, spans, sub, ended⟩ := h
  exact ⟨w, inner, k, pass.leave, spans, sub, ended⟩

theorem MembersRead.reports (h : MembersRead limit r s) : r.Reports s := by
  induction h with
  | @closed r brace ts rest right => exact (passes_advance r).reports r.faults_advance
  | @unclosed r block ended =>
    exact reports_here rfl (Passes.refl _) rfl (Or.inr ended)
  | plain _ goes _ ih => exact goes.reports.trans ih
  | block _ goes _ _ _ inner tail => exact goes.reports.trans (inner.leave.trans tail)
  | tooDeep _ goes _ block _ tail => exact goes.reports.trans ((reports_tooDeep _ block).trans tail)
  | faulty _ stumbles tail ih => exact stumbles.reports_body tail ih

theorem BodyRead.reports (h : BodyRead limit r s) : r.Reports s := by
  cases h with
  | entered _ inner => exact inner.reports.leave
  | tooDeep _ block => exact reports_tooDeep r block

theorem Finishes.reports (h : r.Finishes limit s) : r.Reports s := by
  cases h with
  | plain goes => exact goes.reports
  | block goes body => exact goes.reports.trans body.reports

theorem FileRead.reports (h : FileRead limit r s) : r.Reports s := by
  induction h with
  | done => exact (Passes.refl _).reports rfl
  | statement finishes _ ih => exact finishes.reports.trans ih
  | faulty stumbles _ ih => exact stumbles.reports_file.trans ih

end Reader

/-! ### The faults of a file -/

/-- Sorted tokens start one behind the other. -/
theorem Token.Sorted.pairwise_start {w : List Token} (h : Sorted w) :
    (w.map (·.span)).Pairwise fun a b => a.start < b.start := by
  refine List.pairwise_map.2 (h.ordered.imp_of_mem fun {a b} ha _ before => ?_)
  exact Position.lt_of_lt_of_le (h.proper a ha) before

/-- All tokens of a text end where the end of the file is, or before it. -/
theorem TokenStream.stop_le_finish {source : Text} {t : Token} (h : t ∈ (ofText source).tokens) :
    t.span.stop ≤ (ofText source).finish.span.start := by
  obtain ⟨before, inner, after, split, -, -, -, -, last, final, stop⟩ :=
    exists_segments (w := [t]) ((List.singleton_infix_iff _ _).2 h) (by simp)
  obtain rfl : t = last := by simpa using final
  have text : (before ++ inner).flatMap Segment.text ++ after.flatMap Segment.text = source := by
    rw [← List.flatMap_append, ← split, Segment.flatten_segments]
  rw [← stop]
  change _ ≤ Position.zero.after source
  rw [← text, Position.after_append]
  exact Position.le_after _ _

/-- **The faults of a file are at some of its tokens, in their order, and then at its
end.** -/
theorem SchemaFile.exists_faults_eq (uri source : Text) :
    ∃ inner k, (SchemaFile.parse uri source).faults.map (·.span) =
        inner ++ List.replicate k (TokenStream.ofText source).finish.span ∧
      inner.Sublist ((TokenStream.ofText source).tokens.map (·.span)) := by
  obtain ⟨last, gives, -, faults⟩ := SchemaFile.exists_gives uri source
  obtain ⟨w, inner, k, pass, spans, sub, -⟩ := gives.way.reports
  refine ⟨inner, k, ?_, sub.trans ?_⟩
  · rw [faults, List.map_reverse]
    simpa [Reader.faultSpans, Reader.ofStream] using spans
  · have tokens : (TokenStream.ofText source).tokens = w ++ last.rest := pass.rest
    rw [tokens, List.map_append]
    exact List.sublist_append_left _ _

/-- **Faults come in source order and are not repeated.**  Every fault of a file is at a
token of its text, and each fault starts behind those before it, unless both are at the end
of the file. -/
theorem faults_in_source_order (uri source : Text) :
    (∀ f ∈ (SchemaFile.parse uri source).faults,
      ∃ t ∈ (TokenStream.ofText source).all, f.span = t.span) ∧
    (SchemaFile.parse uri source).faults.Pairwise fun a b => a.span.start < b.span.start ∨
      a.span = (TokenStream.ofText source).finish.span ∧
        b.span = (TokenStream.ofText source).finish.span := by
  obtain ⟨inner, k, spans, sub⟩ := SchemaFile.exists_faults_eq uri source
  constructor
  · intro f hf
    have mem : f.span ∈ (SchemaFile.parse uri source).faults.map (·.span) :=
      List.mem_map_of_mem hf
    rw [spans, List.mem_append] at mem
    rw [TokenStream.all]
    rcases mem with mem | mem
    · obtain ⟨t, ht, same⟩ := List.mem_map.1 (sub.subset mem)
      exact ⟨t, List.mem_append_left _ ht, same.symm⟩
    · exact ⟨_, List.mem_append_right _ (List.mem_singleton_self _), List.eq_of_mem_replicate mem⟩
  · have ordered : (inner ++ List.replicate k (TokenStream.ofText source).finish.span).Pairwise
        fun a b => a.start < b.start ∨ a = (TokenStream.ofText source).finish.span ∧
          b = (TokenStream.ofText source).finish.span := by
      have sorted := TokenStream.sorted_tokens source
      refine List.pairwise_append.2 ⟨(sorted.pairwise_start.sublist sub).imp Or.inl,
        List.pairwise_replicate.2 (Or.inr (Or.inr ⟨rfl, rfl⟩)), fun a ha b hb => Or.inl ?_⟩
      obtain ⟨t, ht, rfl⟩ := List.mem_map.1 (sub.subset ha)
      rw [List.eq_of_mem_replicate hb]
      exact Position.lt_of_lt_of_le (sorted.proper t ht) (TokenStream.stop_le_finish ht)
    rw [← spans] at ordered
    exact List.pairwise_map.1 ordered

/-- A member stumbles over the closing brace of its body, a word starts no statement, and
two bodies are open at the end. -/
def fourFaults : Text := "message A \x7b x y \x7d z ; message B \x7b oneof c \x7b"

/-- The first two faults are at the brace and the word, the last two at the end. -/
theorem fourFaults_in_order :
    (SchemaFile.parse "a.proto" fourFaults).faults.map (·.span.start) =
      [⟨0, 16⟩, ⟨0, 18⟩, ⟨0, 43⟩, ⟨0, 43⟩] ∧
    (∃ f ∈ (SchemaFile.parse "a.proto" fourFaults).faults, f.span.start = ⟨0, 16⟩ ∧
      ∃ t ∈ (TokenStream.ofText fourFaults).all, f.span = t.span) ∧
    (SchemaFile.parse "a.proto" fourFaults).faults.Pairwise fun a b =>
      a.span.start < b.span.start ∨ a.span = (TokenStream.ofText fourFaults).finish.span ∧
        b.span = (TokenStream.ofText fourFaults).finish.span := by
  have starts : (SchemaFile.parse "a.proto" fourFaults).faults.map (·.span.start) =
      [⟨0, 16⟩, ⟨0, 18⟩, ⟨0, 43⟩, ⟨0, 43⟩] := by decide +kernel
  obtain ⟨placed, ordered⟩ := faults_in_source_order "a.proto" fourFaults
  obtain ⟨f, rest, split, start, -⟩ := List.map_eq_cons_iff.1 starts
  have mem : f ∈ (SchemaFile.parse "a.proto" fourFaults).faults := by
    rw [split]
    exact List.mem_cons_self
  exact ⟨starts, ⟨f, mem, start, placed f mem⟩, ordered⟩

end ProtoAtlas
