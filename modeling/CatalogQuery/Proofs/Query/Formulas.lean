import CatalogQuery.Proofs.Draft.Calls
import CatalogQuery.Proofs.Formula.Matched
import CatalogQuery.Proofs.Render.Statements

/-!
# Formulas are parsed in the standard reading

A `CallText` is a call on one line, from its name to the parenthesis that closes it, that is
accepted as a filter by itself. Formulas of such texts, with any mixture of `and`, `or` and `not`,
any parentheses, and any spaces and tabs between the tokens, are accepted, and their conditions are
those of the standard reading (`parseFilter_formula`).

The normal form of a call text is read in the same way wherever it stands (`CallText.matched`): it
begins with a word in front of a parenthesis, and what is read from there on stays inside the
parentheses.
-/

namespace CatalogQuery

open Grammar Formula

variable {catalog : Catalog} {contexts : List Context}

/-- A node with the parts of a call, up to offsets, yields the call. -/
theorem yields_of_callOf (hstable : catalog.Stable) {r : Reading} (hr : r.catalog = catalog)
    {around : Surroundings} {u : ParseTree} {c : DraftCall} {call : Call}
    (h : Draft.callOf r around u = .ok c) (hcall : Resolve.callInOrder contexts c = .ok call)
    {b e : Nat} {text : List Char} {ts : List ParseTree}
    (hparts : u.children.map ParseTree.unplaced = ts.map ParseTree.unplaced) :
    Yields catalog contexts (.call call) (.node .primary b e text ts) := by
  intro r' hr' around'
  obtain ⟨c', hc', hsame⟩ : ∃ c', Draft.callOf r' around' (.node .primary b e text ts) = .ok c' ∧
      c'.unplaced = c.unplaced := Draft.callOf_unplaced (hr.trans hr'.symm) hparts h
  obtain ⟨callee, args, hchildren, -, -, hfind, -⟩ := Draft.callOf_eq_ok_iff.mp hc'
  obtain rfl : ts = [callee, args] := hchildren
  have hfunction : c'.unplaced.function = c.unplaced.function := congrArg DraftCall.function hsame
  have hmem : c'.function ∈ catalog.functions := hr' ▸ List.mem_of_find?_eq_some hfind
  -- both calls are resolved as the call without snippets
  have hunplaced := (Resolve.callInOrder_unplaced contexts
    (hstable c.function (hfunction ▸ hmem)) call).mp hcall
  rw [← hsame] at hunplaced
  have hresolved := (Resolve.callInOrder_unplaced contexts (hstable _ hmem) call).mpr hunplaced
  refine ⟨.call c', ?_, ?_⟩
  · rw [Draft.ofTree_primary (by simp), hc']
    rfl
  · rw [Resolve.conditionInOrder, hresolved]
    rfl

/-! ### Call texts -/

/-- A call that is accepted by itself: a name and what stands behind its opening parenthesis, up to
the parenthesis that closes the call. -/
structure CallText (catalog : Catalog) (contexts : List Context) where
  name : String
  arguments : String
  word : IsWord name.toList
  closing : Source.Closing 1 arguments.toList
  call : Call
  accepted : (parseFilter (name ++ "(" ++ arguments) catalog contexts).result
    = .ok ⟨.call call, name ++ "(" ++ arguments⟩

namespace CallText

/-- The text of the call, as characters. -/
def chars (a : CallText catalog contexts) : List Char := a.name.toList ++ '(' :: a.arguments.toList

/-- The text of the call in normal form. -/
def normal (a : CallText catalog contexts) : List Char := Source.normalizeChars a.chars

/-- What the call means. -/
def meaning (a : CallText catalog contexts) : Condition := .call a.call

theorem toList_text (a : CallText catalog contexts) :
    (a.name ++ "(" ++ a.arguments).toList = a.chars := by
  simp [chars]

theorem isWord_settle {w : List Char} (hw : IsWord w) : IsWord (Source.settle w) := by
  rcases Source.settle_cases w with h | h
  · rwa [h]
  · refine ⟨?_, Source.continues_of_mem_lowered _ h⟩
    simp only [Source.lowered, List.mem_cons, List.not_mem_nil, or_false] at h
    rcases h with h | h | h <;> exact ⟨_, _, h, rfl⟩

/-- **The normal form of a call text** is a word in front of a parenthesis and closes its
parentheses, and does not depend on what stands around the text. -/
theorem normal_eq (a : CallText catalog contexts) : ∃ n, Source.Closing 1 n ∧
    a.normal = Source.settle a.name.toList ++ '(' :: n ∧
    ∀ d u, Source.normalizeFrom (.code d) [] (a.chars ++ u)
      = a.normal ++ Source.normalizeFrom (.code d) [] u := by
  have hnone : ∀ c ∈ [], Source.isWordChar c = true := List.forall_mem_nil _
  obtain ⟨n, hn, hnormal⟩ := a.closing.normalized hnone
  -- the word, the parenthesis behind it, and the text up to the one that closes it
  have hall : ∀ d u, Source.normalizeFrom (.code d) [] (a.chars ++ u)
      = Source.settle a.name.toList ++ '(' :: (n ++ Source.normalizeFrom (.code d) [] u) := by
    intro d u
    have hopen : Source.Zone.after d '(' = .code (d + (0 + 1)) := rfl
    rw [chars, List.append_assoc, Source.normalizeFrom_word a.word.all, List.nil_append,
      List.cons_append, Source.normalizeFrom_code (by decide) (by decide) (by decide), hopen, hnormal]
  have hself : a.normal = Source.settle a.name.toList ++ '(' :: n := by
    have h := hall 0 []
    rw [List.append_nil] at h
    rw [normal, Source.normalizeChars, h]
    simp [Source.normalizeFrom, Source.settle, Source.lowered]
  refine ⟨n, hn, hself, fun d u => ?_⟩
  rw [hall, hself, List.append_assoc]
  rfl

/-- **A call text is matched wherever it stands**, and yields its call. -/
theorem matched (hstable : catalog.Stable) (a : CallText catalog contexts) {rest : List Char}
    (hrest : Quiet (skipped rest)) :
    Matched catalog contexts .negation (a.normal ++ rest) (skipped rest) a.meaning := by
  obtain ⟨n, hn, hnormal, -⟩ := a.normal_eq
  obtain ⟨t, d, ht, hd, hroot, -⟩ := parseFilter_eq_ok_iff.mp a.accepted
  rw [toList_text] at ht hd
  -- a draft that is resolved to a call is the draft of one
  obtain ⟨c, rfl, hcall⟩ : ∃ c, d = .call c ∧ Resolve.callInOrder contexts c = .ok a.call := by
    cases d with
    | call c =>
      obtain ⟨call, hcall, heq⟩ := map_eq_ok hroot
      cases heq
      exact ⟨c, rfl, hcall⟩
    | all ds =>
      obtain ⟨_, -, heq⟩ := map_eq_ok hroot
      cases heq
    | any ds =>
      obtain ⟨_, -, heq⟩ := map_eq_ok hroot
      cases heq
    | not d =>
      obtain ⟨_, -, heq⟩ := map_eq_ok hroot
      cases heq
  have ht : Source.statement (a.name ++ "(" ++ a.arguments)
      (Source.settle a.name.toList ++ '(' :: n) = .ok t := by
    rw [← hnormal]
    exact ht
  obtain ⟨hfree, u, b, e, args, o, c₁, hcallOf, hchildren, hargs⟩ :=
    Source.call_of_statement (isWord_settle a.word) ht hd
  have hname : IsName (String.ofList (Source.settle a.name.toList)) := by
    constructor <;> rw [String.toList_ofList]
    · exact isWord_settle a.word
    · exact hfree
  have hprimary := primary_of_call hname (hargs.call_kept hn rest) hrest
  have hyields : Matches .spaced (.rule .primary)
      ((String.ofList (Source.settle a.name.toList)).toList ++ '(' :: (n ++ rest)) rest
      (Found (Yields catalog contexts a.meaning)) := by
    refine hprimary.imp ?_
    rintro _ ⟨_, rfl, b', e', text, b'', e'', args', rfl, hsame⟩
    have hparts : u.children.map ParseTree.unplaced
        = [ParseTree.node .ident b'' e'' (Source.settle a.name.toList) [], args'].map
          ParseTree.unplaced := by
      rw [hchildren, List.map_cons, List.map_singleton, List.map_cons, List.map_singleton, hsame,
        ParseTree.unplaced_node, ParseTree.unplaced_node]
    rw [String.toList_ofList]
    exact ⟨_, rfl, yields_of_callOf hstable rfl hcallOf hcall hparts⟩
  have hnegation := negation_of_primary hname (layered_yields a.meaning) hyields hrest
  have hstart := Start.of_name hname (n ++ rest)
  rw [String.toList_ofList] at hnegation hstart
  rw [hnormal, List.append_assoc]
  exact ⟨hstart, hnegation⟩

end CallText

/-- **Formulas are parsed in the standard reading**: a formula of call texts that is laid out with
any spaces and tabs is accepted, and its condition is the only one that the standard reading gives
it. -/
theorem parseFilter_formula (hstable : catalog.Stable)
    {ts : List (Token (CallText catalog contexts))} (hts : IsFormula ts) {source : String}
    (hsource : Laid CallText.chars [] ts source.toList) :
    ∃ c, (parseFilter source catalog contexts).result = .ok ⟨c, source⟩ ∧
      ∀ c', Standard CallText.meaning .disjunction ts c' ↔ c' = c := by
  have hnormal : Laid CallText.normal [] ts (Source.normalizeChars source.toList) :=
    hsource.normalized (fun a d u => by
      obtain ⟨_, -, -, h⟩ := a.normal_eq
      exact h d u) 0
  -- every condition that the standard reading gives is the one that is returned
  have hresult : ∀ c, Standard CallText.meaning .disjunction ts c →
      (parseFilter source catalog contexts).result = .ok ⟨c, source⟩ := by
    intro c hc
    have hclosed : Tier.disjunction.Follows (skipped []) := closed_nil
    obtain ⟨hstart, hfound⟩ := hc.matched (fun a rest hrest => a.matched hstable hrest) hnormal hclosed
    have hexpr := expr_of_disjunction (layered_yields c) closed_nil hstart.kwLambda hfound
    obtain ⟨t, ht, hyields⟩ :=
      Source.statement_of_expr (layered_yields c) hstart hexpr source
    obtain ⟨d, hd, hroot⟩ := hyields ⟨source.toList, Source.normalizeChars source.toList, catalog⟩
      rfl .topLevel
    exact parseFilter_eq_ok_iff.mpr ⟨t, d, ht, hd, hroot, rfl⟩
  obtain ⟨c, hc⟩ := hts.exists_standard CallText.meaning
  refine ⟨c, hresult c hc, fun c' => ⟨fun hc' => ?_, fun h => h ▸ hc⟩⟩
  have hsame := (hresult c' hc').symm.trans (hresult c hc)
  cases hsame
  rfl

/-- A catalog with one function. -/
def Catalog.counting : Catalog := ⟨[⟨"f", none, [⟨"n", .int, none⟩]⟩]⟩

/-- Over this catalog a formula with all words, a tab, and a gap before its last parenthesis is
parsed in the standard reading. -/
theorem parseFilter_formula_counting : ∃ c : Call,
    (parseFilter "f(1) or f(1) and not\t(f(1) or f(1) )" .counting []).result = .ok
      ⟨.any [.call c, .all [.call c, .not (.any [.call c, .call c])]],
        "f(1) or f(1) and not\t(f(1) or f(1) )"⟩ := by
  have hstable : Catalog.counting.Stable := by
    simp [Catalog.Stable, Catalog.counting]
  -- the call is accepted by itself
  obtain ⟨a, hchars⟩ : ∃ a : CallText .counting [], a.chars = "f(1)".toList := by
    have hcall : (match (parseFilter "f(1)" .counting []).result with
      | .ok ⟨.call _, _⟩ => true
      | _ => false) = true := by decide +kernel
    split at hcall
    · rename_i call source hq
      obtain ⟨_, _, -, -, -, rfl⟩ := parseFilter_eq_ok_iff.mp hq
      have hword : IsWord "f".toList := ⟨⟨'f', [], rfl, rfl⟩, by decide⟩
      have hclosing : Source.Closing 1 "1)".toList := .plain (by decide) (.closed (by decide) .nil)
      have htext : "f".toList ++ '(' :: "1)".toList = "f(1)".toList := by decide
      exact ⟨⟨"f", "1)", hword, hclosing, call, hq⟩, htext⟩
    · cases hcall
  have hformula : IsFormula ([.call a] ++ .or :: ([.call a] ++ .and ::
      (.not :: (.opening :: ([.call a] ++ .or :: [.call a] ++ [.closing]))))) :=
    .or (.call a) (.and (.call a) (.not (.group (.or (.call a) (.call a)))))
  have hlaid : Laid CallText.chars [] _ "f(1) or f(1) and not\t(f(1) or f(1) )".toList :=
    laid_of_gaps [(.call a, [' ']), (.or, [' ']), (.call a, [' ']), (.and, [' ']), (.not, ['\t']),
      (.opening, []), (.call a, [' ']), (.or, [' ']), (.call a, [' ']), (.closing, [])]
      (by simp [Token.isWord]) (by simp [Token.text, hchars])
  obtain ⟨c, hc, hreading⟩ := parseFilter_formula hstable hformula hlaid
  -- the standard reading, from the inside
  have hcall : Standard CallText.meaning .negation [.call a] a.meaning := .operand (.call a)
  have hinner := Standard.disjunction ([.call a], a.meaning) [([.call a], a.meaning)]
    (by simpa using hcall.to_conjunction)
  have hand := Standard.conjunction ([.call a], a.meaning) [(_, _)]
    (List.forall_mem_cons.mpr ⟨hcall, List.forall_mem_singleton.mpr (.not (.operand (.group hinner)))⟩)
  have hwhole := Standard.disjunction ([.call a], a.meaning) [(_, _)]
    (List.forall_mem_cons.mpr ⟨hcall.to_conjunction, List.forall_mem_singleton.mpr hand⟩)
  rw [← (hreading _).mp hwhole] at hc
  exact ⟨a.call, hc⟩

end CatalogQuery
