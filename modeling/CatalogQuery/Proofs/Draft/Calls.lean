import CatalogQuery.Proofs.Draft.Narrow
import CatalogQuery.Proofs.Render.Calls
import CatalogQuery.Proofs.Resolve.Unplaced

/-!
# Where calls are read

A statement that is narrowed to a call and begins with a word in front of a parenthesis is read as a
name and a row of arguments: every layer above the call reads its only part where it begins itself
(`Reads.head`), so that the call is read at the beginning of the statement
(`Source.call_of_statement`). If the text closes its parentheses, the row of arguments is read in
the same way in front of any other text (`Reads.call_kept`).
-/

namespace CatalogQuery

open Grammar

namespace Grammar

variable {m : Mode} {c c' : Cursor} {ts : List ParseTree} {t : ParseTree}

/-- The first thing that is read is a node. -/
def Expr.headed : Expr → Bool
  | .rule _ => true
  | .seq a _ => a.headed
  | .choice a b => a.headed && b.headed
  | _ => false

theorem headed_of_isLayer {r : Rule} (hr : Draft.isLayer r = true) (hgroup : r ≠ .group) :
    r.body.headed = true := by
  cases r <;> first
    | rfl
    | exact absurd rfl hgroup
    | cases hr

/-- The first node that is found is read at the beginning. -/
theorem Reads.head {e : Expr} (he : e.headed = true) (hm : m.records = true)
    (h : Reads m e c (some (c', ts))) :
    ∃ t us c₁, ts = t :: us ∧ Reads m (.rule t.rule) c (some (c₁, [t])) := by
  induction e generalizing c' ts with
  | rule r =>
    obtain ⟨t, rfl, rfl⟩ := h.finds hm
    exact ⟨t, [], c', rfl, h⟩
  | seq a b iha =>
    cases h with
    | seq ha hb =>
      obtain ⟨t, us, c₁, rfl, ht⟩ := iha he ha
      exact ⟨t, _, c₁, rfl, ht⟩
  | choice a b iha ihb =>
    -- whichever alternative is read, its first node is the first
    obtain ⟨hea, heb⟩ := Bool.and_eq_true_iff.mp he
    cases h with
    | choice_left ha => exact iha hea ha
    | choice_right _ hb => exact ihb heb hb
  | _ => cases he

/-- What the body of a rule read is below its node. -/
theorem Reads.of_rule {r : Rule} (hm : m.records = true)
    (h : Reads m (.rule r) c (some (c', [t]))) :
    Reads (m.inside r.flavor) r.body c (some (c', t.children)) := by
  generalize ho : some (c', [t]) = o at h
  cases h with
  | node _ h =>
    cases ho
    exact h
  | bare hm' => exact absurd (hm.symm.trans hm') (by simp)
  | rule_fails => cases ho

theorem Reads.head_of_group (h : Reads m Rule.group.body c (some (c', ts))) :
    c.rest.head? = some '(' := by
  cases h with
  | seq htext _ =>
    cases htext with
    | text h =>
      rw [h]
      rfl

/-- **A node that is narrowed to a call is a call under layers**, which all begin where it begins,
unless they are parentheses. -/
theorem Reads.primary_of_call {r : Reading} {around : Surroundings} {d : DraftCall} {c : Cursor}
    (hopen : ∀ x ∈ c.rest.head?, x ≠ '(') {t : ParseTree} (ht : t.Grown) :
    ∀ c', Reads .spaced (.rule t.rule) c (some (c', [t])) →
      Draft.ofTree r around t = .ok (.call d) →
      ∃ u c₁, Reads .spaced (.rule .primary) c (some (c₁, [u])) ∧
        Draft.callOf r around u = .ok d := by
  refine ParseTree.Grown.induct ?_ ht
  intro rule b e text ts hgrown ih c' h hd
  generalize hcall : Draft.call d = d' at hd
  cases Draft.ofTree_cases hgrown.branches hd with
  | @layer child _ hts hrule hchild =>
    subst hts hcall
    have hbody : Reads (Mode.spaced.inside rule.flavor) rule.body c (some (c', [child])) :=
      h.of_rule rfl
    rw [flavor_of_isLayer hrule] at hbody
    by_cases hgroup : rule = .group
    · subst hgroup
      -- a group would begin with a parenthesis
      exact absurd rfl (hopen '(' hbody.head_of_group)
    · obtain ⟨t, us, c₁, hts, ht⟩ := hbody.head (headed_of_isLayer hrule hgroup) rfl
      obtain rfl : child = t := (List.cons.inj hts).1
      exact ih _ List.mem_cons_self _ ht hchild
  | call hrule hcallOf =>
    cases hcall
    subst hrule
    exact ⟨_, c', h, hcallOf⟩
  | not | any | all => cases hcall

/-- **A call that begins with a word in front of a parenthesis** is a name and a row of arguments,
and the row of arguments is read at the parenthesis. -/
theorem Reads.call_of_primary {r : Reading} {around : Surroundings} {d : DraftCall}
    {w n : List Char} {u : ParseTree} (hw : IsWord w) (hc : c.rest = w ++ '(' :: n)
    (h : Reads .spaced (.rule .primary) c (some (c', [u])))
    (hd : Draft.callOf r around u = .ok d) :
    w ∉ reservedWords ∧ ∃ b e args o c₁, u.children = [.node .ident b e w [], args] ∧
      Reads .spaced (.rule .call) ⟨'(' :: n, o⟩ (some (c₁, [args])) := by
  obtain ⟨callee, args, hchildren, hcallee, hargs, -⟩ := Draft.callOf_eq_ok_iff.mp hd
  have hbody : Reads .spaced Rule.primary.body c (some (c', u.children)) := h.of_rule rfl
  obtain ⟨rest, o⟩ := c
  obtain rfl : rest = w ++ '(' :: n := hc
  -- the first part is a name, and names are not reserved
  have hfree : w ∉ reservedWords := by
    intro hmem
    obtain ⟨t, us, c₁, hts, hident⟩ := hbody.head rfl rfl
    obtain rfl : callee = t := (List.cons.inj (hchildren.symm.trans hts)).1
    rw [hcallee] at hident
    cases hident.unique (ident_refuses hmem (ends_open n) o)
  have hname : IsName (String.ofList w) := by
    constructor <;> rwa [String.toList_ofList]
  obtain ⟨o₁, _, hatom, t, rfl, b, e, rfl⟩ := atom_of_name hname n o
  rw [String.toList_ofList] at hatom
  refine ⟨hfree, b, e, args, o₁, ?_⟩
  generalize hts : u.children = ts at hbody hchildren
  cases hbody with
  | seq hfirst htrailers =>
    -- the name is read in one way only, up to the parenthesis
    cases hfirst.unique hatom
    obtain ⟨rfl, hvs⟩ := List.cons.inj hchildren
    rw [Cursor.skip_eq rfl (by decide)] at htrailers
    cases htrailers with
    | many_none => cases hvs
    | many_some htrailer hmore =>
      obtain ⟨t, us, c₁, rfl, hcall⟩ := htrailer.head rfl rfl
      obtain ⟨rfl, -⟩ := List.cons.inj hvs
      rw [hargs] at hcall
      exact ⟨c₁, by simpa using hvs, hcall⟩

/-- Behind its opening parenthesis a row of arguments is read inside brackets. -/
theorem Reads.call_body_kept {n : List Char} {o : Nat}
    (h : Reads .spaced Rule.call.body ⟨'(' :: n, o⟩ (some (c', ts))) (hn : Source.Closing 1 n)
    (tail : List Char) : Kept .spaced Rule.call.body ('(' :: n) tail 0 (some (c', ts)) := by
  cases h with
  | @seq _ _ c₁ _ _ _ us vs hopen hrest =>
    cases hopen with
    | @text _ _ _ rest htext =>
      obtain rfl : n = rest := (List.cons.inj htext).2
      obtain ⟨hnext, htail⟩ := Mode.spaced.next_closing hn tail
      -- the arguments and the closing parenthesis lead out of one bracket
      have hdepth : (Expr.seq (commaList argument (.lit ",")) (.lit ")")).depthAfter (0 + 1)
          = some 0 := rfl
      obtain ⟨hclosing, hmatches⟩ := hrest.kept hdepth (k := 0)
        (by rw [Cursor.skip_rest]; exact hnext) tail
      rw [Cursor.skip_rest] at hmatches
      have hopen : Matches .spaced (.lit "(") ('(' :: (n ++ tail)) (n ++ tail) (· = []) :=
        .text (t := ['('])
      refine ⟨hclosing, (hopen.seq (by rw [htail]; exact hmatches)).imp ?_⟩
      rintro _ ⟨_, us, rfl, rfl, hus⟩
      exact hus

/-- **A row of arguments whose parentheses are closed** is read in front of every text as it is read
alone, up to offsets. -/
theorem Reads.call_kept {n : List Char} {o : Nat} {args : ParseTree}
    (h : Reads .spaced (.rule .call) ⟨'(' :: n, o⟩ (some (c', [args])))
    (hn : Source.Closing 1 n) (tail : List Char) :
    Matches .spaced (.rule .call) ('(' :: (n ++ tail)) tail
      (Found fun t => t.unplaced = args.unplaced) := by
  cases h with
  | bare hm => cases hm
  | node hm hbody =>
    obtain ⟨hclosing, hmatches⟩ := Kept.node hm hbody (hbody.call_body_kept hn tail)
    -- behind the last bracket nothing but `tail` is left
    rw [hclosing.eq_nil] at hmatches
    refine hmatches.imp ?_
    intro us hus
    obtain ⟨t, rest, rfl, ht, hrest⟩ := List.map_eq_cons_iff.mp hus
    obtain rfl := List.map_eq_nil_iff.mp hrest
    exact ⟨t, rfl, ht⟩

end Grammar

/-- **A statement that is narrowed to a call** and begins with a word in front of a parenthesis is
that name and a row of arguments. -/
theorem Source.call_of_statement {source : String} {w n : List Char} {t : ParseTree} {r : Reading}
    {around : Surroundings} {d : DraftCall} (hw : IsWord w)
    (ht : Source.statement source (w ++ '(' :: n) = .ok t)
    (hd : Draft.ofTree r around t = .ok (.call d)) :
    w ∉ reservedWords ∧ ∃ u b e args o c₁, Draft.callOf r around u = .ok d ∧
      u.children = [.node .ident b e w [], args] ∧
      Reads .spaced (.rule .call) ⟨'(' :: n, o⟩ (some (c₁, [args])) := by
  obtain ⟨tree, htree, hfilter, hrule⟩ := Source.statement_ok ht
  obtain ⟨c, hc⟩ := parse_eq_ok_iff.mp htree
  have hhead : ∀ x ∈ (w ++ '(' :: n).head?, continues x = true := by
    obtain ⟨x, v, rfl, -⟩ := hw.head
    rintro _ ⟨⟩
    exact hw.all x List.mem_cons_self
  have hsolid : ∀ x ∈ (w ++ '(' :: n).head?, Solid x := fun x hx => solid_of_continues (hhead x hx)
  have hseparator : Refuses .spaced separator (w ++ '(' :: n) :=
    separator_refuses_of_continues hhead
  -- the statement begins where the text begins
  obtain ⟨c₁, c₂, hc₁, hstatement⟩ : ∃ c₁ c₂, c₁.rest = w ++ '(' :: n ∧
      Reads .spaced (.rule .exprStmt) c₁ (some (c₂, [t])) := by
    cases hc with
    | bare hm => cases hm
    | node _ hbody =>
      refine hbody.program_statement (I := fun c => c.rest = w ++ '(' :: n) ?_ ?_ rfl hfilter hrule
      · intro c hc
        rw [Cursor.skip_rest, hc, Mode.next_of_solid _ hsolid]
      · rintro ⟨rest, o⟩ c' us h rfl
        cases h with
        | many_none => rfl
        | many_some ha => cases ha.unique (hseparator o)
  rw [← hrule] at hstatement
  have hopen : ∀ x ∈ c₁.rest.head?, x ≠ '(' := by
    rw [hc₁]
    rintro x hx rfl
    cases hhead _ hx
  have hgrown := hstatement.grown rfl t (List.mem_singleton_self t)
  obtain ⟨u, c₃, hprimary, hcall⟩ := Reads.primary_of_call hopen hgrown c₂ hstatement hd
  obtain ⟨hfree, b, e, args, o, c₄, hchildren, hargs⟩ := hprimary.call_of_primary hw hc₁ hcall
  exact ⟨hfree, u, b, e, args, o, c₄, hcall, hchildren, hargs⟩

end CatalogQuery
