import PluginResolution.Proofs.OutlineTokens
import PluginResolution.Yaml.Value.Basic

namespace PluginResolution.Yaml

namespace Reading

variable {ts : List Token} {as : List (String × Nat)} {hs : List (String × String)}

theorem run_part_scalar (fuel : Nat) (plain : Bool) (text : String) :
    (blockPart (fuel + 2)).run ⟨.scalar plain text :: ts, as, hs⟩ =
      some (.scalar {} plain text, ⟨ts, as, hs⟩) := by
  rw [blockPart, node]
  rfl

theorem run_part_absent (fuel : Nat) {t : Token} (h : t = .key ∨ t = .blockEnd) :
    (blockPart (fuel + 1)).run ⟨t :: ts, as, hs⟩ = some (.absent, ⟨t :: ts, as, hs⟩) := by
  rw [blockPart]
  rcases h with rfl | rfl
  · rfl
  · rfl

theorem run_node_mapping {fuel : Nat} (indentless : Bool) {entries : List (Node × Node)}
    {s : Reading} (h : (blockEntries fuel).run ⟨ts, as, hs⟩ = some (entries, s)) :
    (node (fuel + 1) true indentless).run ⟨.blockMappingStart :: ts, as, hs⟩ =
      some (.mapping {} entries, s) := by
  have hread : (node (fuel + 1) true indentless).run ⟨.blockMappingStart :: ts, as, hs⟩ =
      ((blockEntries fuel).run ⟨ts, as, hs⟩).bind fun r => some (.mapping {} r.1, r.2) := by
    rw [node]
    cases indentless with
    | false => rfl
    | true => rfl
  rw [hread, h, Option.bind_some]

theorem run_part_mapping {fuel : Nat} {entries : List (Node × Node)} {s : Reading}
    (h : (blockEntries fuel).run ⟨ts, as, hs⟩ = some (entries, s)) :
    (blockPart (fuel + 2)).run ⟨.blockMappingStart :: ts, as, hs⟩ =
      some (.mapping {} entries, s) := by
  have hread : (blockPart (fuel + 2)).run ⟨.blockMappingStart :: ts, as, hs⟩ =
      (node (fuel + 1) true true).run ⟨.blockMappingStart :: ts, as, hs⟩ := by
    rw [blockPart]
    rfl
  rw [hread, run_node_mapping true h]

theorem run_entries_end (fuel : Nat) :
    (blockEntries (fuel + 1)).run ⟨.blockEnd :: ts, as, hs⟩ = some ([], ⟨ts, as, hs⟩) := by
  rw [blockEntries]
  rfl

theorem run_entries_key {fuel : Nat} {key value : Node} {entries : List (Node × Node)}
    {s : Reading} {ts' ts'' : List Token}
    (hkey : (blockPart fuel).run ⟨ts, as, hs⟩ = some (key, ⟨.value :: ts', as, hs⟩))
    (hvalue : (blockPart fuel).run ⟨ts', as, hs⟩ = some (value, ⟨ts'', as, hs⟩))
    (hrest : (blockEntries fuel).run ⟨ts'', as, hs⟩ = some (entries, s)) :
    (blockEntries (fuel + 1)).run ⟨.key :: ts, as, hs⟩ = some ((key, value) :: entries, s) := by
  rw [blockEntries]
  change ((blockPart fuel).run ⟨ts, as, hs⟩).bind _ = _
  rw [hkey]
  change ((blockPart fuel).run ⟨ts', as, hs⟩).bind _ = _
  rw [hvalue]
  change ((blockEntries fuel).run ⟨ts'', as, hs⟩).bind _ = _
  rw [hrest]
  rfl

end Reading

namespace Outline

/-- The node of a mapping with these entries. A mapping without entries is not written. -/
def nodeOf (o : Outline) (entries : List (Node × Node)) : Node :=
  match o with
  | nothing => .absent
  | _ => .mapping {} entries

def nodes : Outline → List (Node × Node)
  | nothing => []
  | word key text rest => (.scalar {} true key, .scalar {} true text) :: rest.nodes
  | block key inner rest => (.scalar {} true key, inner.nodeOf inner.nodes) :: rest.nodes

theorem nodeOf_of_ne {o : Outline} (h : o ≠ nothing) (entries : List (Node × Node)) :
    o.nodeOf entries = .mapping {} entries := by
  cases o with
  | nothing => exact absurd rfl h
  | word key text rest => rfl
  | block key inner rest => rfl

/-- Behind the entries of a mapping stands another key or its end. -/
theorem next_token (o : Outline) (ts : List Token) :
    ∃ t ts', o.tokens ++ .blockEnd :: ts = t :: ts' ∧ (t = .key ∨ t = .blockEnd) := by
  cases o with
  | nothing => exact ⟨.blockEnd, ts, rfl, .inr rfl⟩
  | word key text rest => exact ⟨.key, _, rfl, .inl rfl⟩
  | block key inner rest => exact ⟨.key, _, rfl, .inl rfl⟩

open Reading

/-- The entries of a mapping are read back from their tokens. -/
theorem run_entries (o : Outline) {fuel : Nat} (hfuel : o.tokens.length < fuel) (ts : List Token)
    (as : List (String × Nat)) (hs : List (String × String)) :
    (blockEntries fuel).run ⟨o.tokens ++ .blockEnd :: ts, as, hs⟩ =
      some (o.nodes, ⟨ts, as, hs⟩) := by
  -- no level of the reader takes more fuel than the mapping has tokens
  induction o generalizing fuel ts with
  | nothing =>
    obtain ⟨fuel, rfl⟩ := Nat.exists_eq_add_of_lt hfuel
    exact run_entries_end _
  | word key text rest ih =>
    have hlen : (word key text rest).tokens.length = rest.tokens.length + 4 := rfl
    obtain ⟨n, rfl⟩ : ∃ n, fuel = n + 3 := ⟨fuel - 3, by omega⟩
    have hrest := @ih (n + 2) (by omega) ts
    exact run_entries_key (run_part_scalar n true key) (run_part_scalar n true text) hrest
  | block key inner rest ihInner ihRest =>
    have hlen : (block key inner rest).tokens.length =
        (inner.enclose inner.tokens).length + rest.tokens.length + 3 := by
      simp only [tokens, List.length_cons, List.length_append]
    obtain ⟨n, rfl⟩ : ∃ n, fuel = n + 3 := ⟨fuel - 3, by omega⟩
    have hrest := @ihRest (n + 2) (by omega) ts
    have hvalue : (blockPart (n + 2)).run
        ⟨inner.enclose inner.tokens ++ (rest.tokens ++ .blockEnd :: ts), as, hs⟩ =
          some (inner.nodeOf inner.nodes, ⟨rest.tokens ++ .blockEnd :: ts, as, hs⟩) := by
      by_cases hne : inner = nothing
      -- the value is missing, which the next token tells
      · subst hne
        obtain ⟨t, ts', hnext, ht⟩ := next_token rest ts
        rw [enclose, List.nil_append, hnext]
        exact run_part_absent (n + 1) ht
      · rw [enclose_of_ne hne, List.length_cons, List.length_append] at hlen
        have hinner := @ihInner n (by omega) (rest.tokens ++ .blockEnd :: ts)
        rw [enclose_of_ne hne, nodeOf_of_ne hne, List.cons_append, List.append_assoc]
        exact run_part_mapping hinner
    have htokens : (block key inner rest).tokens ++ .blockEnd :: ts =
        .key :: .scalar true key :: .value ::
          (inner.enclose inner.tokens ++ (rest.tokens ++ .blockEnd :: ts)) := by
      simp [tokens]
    rw [htokens]
    exact run_entries_key (run_part_scalar n true key) hvalue hrest

/-- The document of an outline is its mapping. -/
theorem run_document (o : Outline) :
    Reading.document.run { tokens := .blockMappingStart :: (o.tokens ++ [.blockEnd]) } =
      some (some (.mapping {} o.nodes), ⟨[], [], usualHandles⟩) := by
  let ts := o.tokens ++ [Token.blockEnd]
  have hlen : o.tokens.length < 4 * (ts.length + 1) + 7 := by
    have hts : ts.length = o.tokens.length + 1 := List.length_append
    omega
  have hroot := run_node_mapping false (run_entries o hlen [] [] usualHandles)
  rw [Reading.document]
  change ((node (4 * (ts.length + 1) + 8) true false).run
    ⟨.blockMappingStart :: ts, [], usualHandles⟩).bind _ = _
  rw [hroot]
  rfl

theorem document_of_outline {o : Outline} (h : o.Spelled) (hne : o ≠ nothing) (indent : Nat) :
    document? (o.document indent) =
      if o.fits then some (some (.mapping {} o.nodes)) else none := by
  rw [document?, tokens_document h hne, enclose_of_ne hne]
  cases o.fits with
  | false => rfl
  | true =>
    simp only [if_true, Option.bind_eq_bind, Option.bind_some, run_document o]
    rfl

/-! ## Trees -/

def treeOf (o : Outline) (entries : List (Tree × Tree)) : Tree :=
  match o with
  | nothing => .scalar none true ""
  | _ => .mapping none entries

theorem treeOf_of_ne {o : Outline} (h : o ≠ nothing) (entries : List (Tree × Tree)) :
    o.treeOf entries = .mapping none entries := by
  cases o with
  | nothing => exact absurd rfl h
  | word key text rest => rfl
  | block key inner rest => rfl

def trees : Outline → List (Tree × Tree)
  | nothing => []
  | word key text rest => (.scalar none true key, .scalar none true text) :: rest.trees
  | block key inner rest => (.scalar none true key, inner.treeOf inner.trees) :: rest.trees

/-- How deep the mappings are nested, those without entries included. -/
def depth : Outline → Nat
  | nothing => 1
  | word _ _ rest => rest.depth
  | block _ inner rest => max (inner.depth + 1) rest.depth

theorem depth_pos (o : Outline) : 0 < o.depth := by
  induction o with
  | nothing => exact Nat.one_pos
  | word key text rest ih => exact ih
  | block key inner rest ihInner ihRest => exact Nat.lt_of_lt_of_le ihRest (Nat.le_max_right _ _)

/-- Nothing in a document in block style is anchored. -/
theorem anchoredEntries_nodes (o : Outline) : Node.anchoredEntries o.nodes = [] := by
  induction o with
  | nothing => rfl
  | word key text rest ih =>
    rw [nodes, Node.anchoredEntries, ih]
    rfl
  | block key inner rest ihInner ihRest =>
    have hinner : Node.anchored (inner.nodeOf inner.nodes) = [] := by
      by_cases hne : inner = nothing
      · subst hne
        rfl
      · rw [nodeOf_of_ne hne, Node.anchored, ihInner]
        rfl
    rw [nodes, Node.anchoredEntries, hinner, ihRest]
    rfl

theorem expand_scalar (depth : Nat) (untagged : Bool) (text : String) (budget : Nat) :
    (Node.expand [] depth untagged (.scalar {} true text)).run budget =
      some (.scalar none true text, budget) := by
  cases depth with
  | zero => cases untagged <;> rfl
  | succ depth => cases untagged <;> rfl

def expandEntry (depth : Nat) (untagged : Bool) (e : Node × Node) :
    Node.Expansion (Tree × Tree) := do
  return (← Node.expand [] depth untagged e.1, ← Node.expand [] depth false e.2)

theorem expand_mapping {depth budget : Nat} (untagged : Bool) {entries : List (Node × Node)}
    {trees : List (Tree × Tree)}
    (h : (entries.mapM (expandEntry depth untagged)).run budget = some (trees, budget)) :
    (Node.expand [] (depth + 1) untagged (.mapping {} entries)).run budget =
      some (.mapping none trees, budget) := by
  have hexpand : (Node.expand [] (depth + 1) untagged (.mapping {} entries)).run budget =
      ((entries.mapM (expandEntry depth untagged)).run budget).bind fun r =>
        some (.mapping none r.1, r.2) := by
    cases untagged with
    | false => rfl
    | true => rfl
  rw [hexpand, h, Option.bind_some]

theorem mapM_entry {depth budget : Nat} {untagged : Bool} {e : Node × Node}
    {entries : List (Node × Node)} {key value : Tree} {trees : List (Tree × Tree)}
    (hkey : (Node.expand [] depth untagged e.1).run budget = some (key, budget))
    (hvalue : (Node.expand [] depth false e.2).run budget = some (value, budget))
    (hrest : (entries.mapM (expandEntry depth untagged)).run budget = some (trees, budget)) :
    ((e :: entries).mapM (expandEntry depth untagged)).run budget =
      some ((key, value) :: trees, budget) := by
  have hentry : (expandEntry depth untagged e).run budget = some ((key, value), budget) := by
    simp only [expandEntry, StateT.run_bind, hkey, hvalue, Option.bind_eq_bind, Option.bind_some]
    rfl
  simp only [List.mapM_cons, StateT.run_bind, hentry, hrest, Option.bind_eq_bind,
    Option.bind_some]
  rfl

/-- The trees of the entries are expanded from their nodes, however deep they may go. -/
theorem expand_nodes (o : Outline) {depth : Nat} (hdepth : o.depth ≤ depth + 1) (untagged : Bool)
    (budget : Nat) : (o.nodes.mapM (expandEntry depth untagged)).run budget =
      some (o.trees, budget) := by
  induction o generalizing depth untagged with
  | nothing => rfl
  | word key text rest ih =>
    exact mapM_entry (expand_scalar depth untagged key budget)
      (expand_scalar depth false text budget) (ih hdepth untagged)
  | block key inner rest ihInner ihRest =>
    have hinnerDepth : inner.depth + 1 ≤ depth + 1 := Nat.le_trans (Nat.le_max_left _ _) hdepth
    have hrestDepth : rest.depth ≤ depth + 1 := Nat.le_trans (Nat.le_max_right _ _) hdepth
    have hvalue : (Node.expand [] depth false (inner.nodeOf inner.nodes)).run budget =
        some (inner.treeOf inner.trees, budget) := by
      by_cases hne : inner = nothing
      · subst hne
        exact expand_scalar depth false "" budget
      · have hpos := inner.depth_pos
        obtain ⟨d, rfl⟩ : ∃ d, depth = d + 1 := ⟨depth - 1, by omega⟩
        rw [nodeOf_of_ne hne, treeOf_of_ne hne]
        exact expand_mapping false (ihInner (Nat.le_of_succ_le_succ hinnerDepth) false)
    exact mapM_entry (expand_scalar depth untagged key budget) hvalue
      (ihRest hrestDepth untagged)

/-- The tree of the document is its mapping with the words as they are written. -/
theorem tree_of_outline (o : Outline) (hdepth : o.depth ≤ Node.maxDepth) :
    Node.tree? (.mapping {} o.nodes) = some (.mapping none o.trees) := by
  have hanchored : Node.anchored (.mapping {} o.nodes) = [] := by
    rw [Node.anchored, anchoredEntries_nodes]
    rfl
  -- without aliases nothing is taken from the budget
  have hexpand := expand_mapping false (@expand_nodes o 127 hdepth false
    (100 * Node.size (.mapping {} o.nodes)))
  rw [Node.tree?, hanchored, List.reverse_nil]
  have hdeep : Node.maxDepth = 127 + 1 := rfl
  rw [hdeep, hexpand]
  rfl

end Outline

end PluginResolution.Yaml
