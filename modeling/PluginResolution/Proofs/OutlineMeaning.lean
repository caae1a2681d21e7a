import PluginResolution.Proofs.OutlineTrees

namespace PluginResolution.Yaml.Outline

def keys : Outline → List String
  | nothing => []
  | word key _ rest => key :: rest.keys
  | block key _ rest => key :: rest.keys

def meanings (o : Outline) : List (Option Scalar) :=
  o.keys.map Scalar.ofPlain?

/-- All words of the entries mean something, and in mappings further inside no two keys mean the
same. -/
def entriesRead : Outline → Bool
  | nothing => true
  | word key text rest =>
    (Scalar.ofPlain? key).isSome && (Scalar.ofPlain? text).isSome && rest.entriesRead
  | block key inner rest =>
    (Scalar.ofPlain? key).isSome && (inner.entriesRead && decide inner.meanings.Nodup) &&
      rest.entriesRead

def reads (o : Outline) : Bool :=
  o.entriesRead && decide o.meanings.Nodup

structure Means (o : Outline) (es : List (Value × Value)) : Prop where
  entries : Value.ofEntries? o.trees = some es
  has : ∀ s, es.any (fun e => Value.same (.scalar s) e.1) = decide (some s ∈ o.meanings)
  differ : Value.keysDiffer es = decide o.meanings.Nodup

theorem ofTree_scalar (text : String) :
    Value.ofTree? (.scalar none true text) = (Scalar.ofPlain? text).map .scalar :=
  rfl

/-- One more entry, whose key and value mean something. -/
theorem Means.cons {o : Outline} {es : List (Value × Value)} (h : Means o es) {key : String}
    {s : Scalar} (hkey : Scalar.ofPlain? key = some s) {t : Tree} {v : Value}
    (hvalue : Value.ofTree? t = some v) {o' : Outline} (hkeys : o'.keys = key :: o.keys)
    (htrees : o'.trees = (.scalar none true key, t) :: o.trees) :
    Means o' ((.scalar s, v) :: es) := by
  have hmeanings : o'.meanings = some s :: o.meanings := by
    rw [meanings, hkeys, List.map_cons, hkey]
    rfl
  refine ⟨?_, ?_, ?_⟩
  · rw [htrees, Value.ofEntries?, ofTree_scalar, hkey, hvalue, h.entries]
    rfl
  · intro r
    have hsame : Value.same (.scalar r) (.scalar s) = decide (some r = some s) := by
      by_cases hr : r = s
      · simp [Value.same, hr]
      · simp [Value.same, hr]
    rw [List.any_cons, h.has, hsame, hmeanings]
    simp [List.mem_cons]
  · rw [Value.keysDiffer, h.has, h.differ, hmeanings]
    simp [List.nodup_cons]

theorem means_nothing : Means nothing [] :=
  ⟨rfl, fun _ => rfl, rfl⟩

/-- What a mapping means, as a value: nothing, without entries. -/
theorem ofTree_mapping {o : Outline} {es : List (Value × Value)} (h : Means o es) :
    Value.ofTree? (o.treeOf o.trees) =
      if o.meanings.Nodup then some (if o = nothing then .scalar .null else .mapping es)
      else none := by
  by_cases hne : o = nothing
  · subst hne
    rfl
  · rw [treeOf_of_ne hne, Value.ofTree?, h.entries, if_neg hne]
    simp only [h.differ, decide_eq_true_eq]
    rfl

theorem ofTree_unread {o : Outline} (h : Value.ofEntries? o.trees = none) :
    Value.ofTree? (o.treeOf o.trees) = none := by
  have hne : o ≠ nothing := by
    rintro rfl
    cases h
  rw [treeOf_of_ne hne, Value.ofTree?, h]

theorem ofEntries_cons (k t : Tree) (r : List (Tree × Tree)) :
    Value.ofEntries? ((k, t) :: r) = (Value.ofTree? k).bind fun key =>
      (Value.ofTree? t).bind fun value => (Value.ofEntries? r).map ((key, value) :: ·) := by
  rw [Value.ofEntries?]
  cases Value.ofTree? k with
  | none => rfl
  | some key =>
    cases Value.ofTree? t with
    | none => rfl
    | some value =>
      cases Value.ofEntries? r with
      | none => rfl
      | some es => rfl

def MeansOrNot (o : Outline) : Prop :=
  (o.entriesRead = true ∧ ∃ es, Means o es) ∨
    (o.entriesRead = false ∧ Value.ofEntries? o.trees = none)

theorem MeansOrNot.cons {o o' : Outline} (h : MeansOrNot o) {key : String} {t : Tree} {read : Bool}
    (hvalue : read = (Value.ofTree? t).isSome) (hkeys : o'.keys = key :: o.keys)
    (htrees : o'.trees = (.scalar none true key, t) :: o.trees)
    (hread : o'.entriesRead = ((Scalar.ofPlain? key).isSome && read && o.entriesRead)) :
    MeansOrNot o' := by
  have hunread (hfalse : o'.entriesRead = false) (hnone : Value.ofEntries? o'.trees = none) :
      MeansOrNot o' := .inr ⟨hfalse, hnone⟩
  -- the key, its value and the entries behind it, in the order in which they are read
  cases hs : Scalar.ofPlain? key with
  | none =>
    apply hunread
    · rw [hread, hs]
      rfl
    · rw [htrees, ofEntries_cons, ofTree_scalar, hs]
      rfl
  | some s =>
    cases hv : Value.ofTree? t with
    | none =>
      apply hunread
      · rw [hread, hvalue, hv, Option.isSome_none, Bool.and_false, Bool.false_and]
      · rw [htrees, ofEntries_cons, ofTree_scalar, hs, hv]
        rfl
    | some v =>
      rcases h with ⟨htrue, es, hes⟩ | ⟨hfalse, hnone⟩
      · refine .inl ⟨?_, _, hes.cons hs hv hkeys htrees⟩
        rw [hread, hs, hvalue, hv, htrue]
        rfl
      · apply hunread
        · rw [hread, hfalse, Bool.and_false]
        · rw [htrees, ofEntries_cons, ofTree_scalar, hs, hv, hnone]
          rfl

theorem ofTree_isSome {o : Outline} (h : MeansOrNot o) :
    o.reads = (Value.ofTree? (o.treeOf o.trees)).isSome := by
  rcases h with ⟨htrue, es, hes⟩ | ⟨hfalse, hnone⟩
  · rw [reads, htrue, ofTree_mapping hes]
    by_cases hd : o.meanings.Nodup
    · simp [hd]
    · simp [hd]
  · rw [reads, hfalse, ofTree_unread hnone]
    rfl

theorem meansOrNot (o : Outline) : MeansOrNot o := by
  induction o with
  | nothing => exact .inl ⟨rfl, [], means_nothing⟩
  | word key text rest ih =>
    have hvalue : (Scalar.ofPlain? text).isSome =
        (Value.ofTree? (.scalar none true text)).isSome := by
      rw [ofTree_scalar, Option.isSome_map]
    exact ih.cons hvalue rfl rfl rfl
  | block key inner rest ihInner ihRest =>
    exact ihRest.cons (ofTree_isSome ihInner) rfl rfl rfl

/-- What reading a document in block style gives. -/
theorem read_document {o : Outline} (h : o.Spelled) (hne : o ≠ nothing)
    (hdepth : o.depth ≤ Node.maxDepth) (indent : Nat) :
    read? (o.document indent) =
      if o.fits = true ∧ o.reads = true then some (.mapping none o.trees) else none := by
  rw [read?, document_of_outline h hne]
  cases o.fits with
  | false => rfl
  | true =>
    have hreads := ofTree_isSome (meansOrNot o)
    rw [treeOf_of_ne hne] at hreads
    simp only [if_true, tree_of_outline o hdepth, true_and, hreads]
    cases Value.ofTree? (.mapping none o.trees) with
    | none => rfl
    | some v => rfl

end PluginResolution.Yaml.Outline
