import Mathlib.Data.List.Induction
import DocModel.Proofs.Dict.Insertion
import DocModel.Schema.Undeclared

/-!
# The closest combination of branches

A schema can be composed in up to three ways at once. The walk chooses a branch of the first list, and for it a
branch of the next one; what it comes to in the end is the first of all combinations that leave the fewest
fields undeclared.

* `paths_congr`: the walk looks keywords up, and does nothing else with a schema.
* `fewest_spec`, `isFirstClosest_cons`: the choice of one branch, on top of the choices after it.
* `isFirstClosest_of_suffix`: the choices for the keywords, one after the other.
* `closest_combination`: what the walk of a schema comes to that is composed of flat branches.
-/

namespace DocModel

namespace Undeclared

/-! ## Schemas with the same keywords -/

/-- Fields with the same value, or none, for each key. -/
def Alike (a b : Fields) : Prop := ∀ key, Dict.get? a key = Dict.get? b key

/-- A branch on top of fields; what is no object adds nothing. -/
def putBranch (node : Fields) : Value → Fields
  | .map branch => Value.mergeFields node branch
  | _ => node

theorem branchSchema_eq (node : Fields) (branch : Value) :
    branchSchema node branch = .map (putBranch node branch) := by
  cases branch <;> rfl

namespace Alike

variable {a b : Fields}

theorem erase (h : Alike a b) (keyword : String) : Alike (Dict.erase a keyword) (Dict.erase b keyword) := by
  intro key
  rw [Dict.get?_erase, Dict.get?_erase, h key]

theorem putBranch (h : Alike a b) (branch : Value) : Alike (putBranch a branch) (putBranch b branch) := by
  cases branch with
  | map fields =>
    intro key
    rw [Undeclared.putBranch, Undeclared.putBranch, Value.get?_mergeFields, Value.get?_mergeFields, h key]
  | _ => exact h

theorem foldl_putBranch (h : Alike a b) (picked : List Value) :
    Alike (picked.foldl Undeclared.putBranch a) (picked.foldl Undeclared.putBranch b) := by
  induction picked generalizing a b with
  | nil => exact h
  | cons branch picked ih => exact ih (h.putBranch branch)

theorem composition? (h : Alike a b) : composition? a = composition? b := by
  simp only [Undeclared.composition?, branches?, h _]

theorem itemSchema? (h : Alike a b) (index : Nat) : itemSchema? a index = itemSchema? b index := by
  rw [Undeclared.itemSchema?, Undeclared.itemSchema?, h, h]

theorem verdict (h : Alike a b) (engine : PatternEngine) (key : String) :
    verdict engine a key = verdict engine b key := by
  have hdeclared : declared? a = declared? b := by rw [declared?, declared?, h]
  have hpatterns : patterns engine a = patterns engine b := by rw [patterns, patterns, h]
  have hotherwise (judged : Bool) : otherwise a judged = otherwise b judged := by rw [otherwise, otherwise, h]
  rw [Undeclared.verdict, Undeclared.verdict, hdeclared, hpatterns, hotherwise]

end Alike

variable {engine : PatternEngine}

/-- The walk looks the keywords of a schema up. -/
theorem paths_congr {a b : Fields} (h : Alike a b) (value : Value) (path : String) :
    paths engine value (.map a) path = paths engine value (.map b) path := by
  induction hsize : (Value.map a).size using Nat.strongRecOn generalizing a b with
  | ind size ih =>
    subst hsize
    cases hc : composition? a with
    | some found =>
      obtain ⟨keyword, branches⟩ := found
      rw [paths_composed hc, paths_composed (h.composition? ▸ hc)]
      refine congrArg fewest (List.map_congr_left fun branch hbranch => ?_)
      have hlt := size_branchSchema_lt hc hbranch
      rw [branchSchema_eq] at hlt
      rw [branchSchema_eq, branchSchema_eq]
      exact ih _ hlt ((h.erase keyword).putBranch branch) rfl
    | none =>
      have hc' : composition? b = none := h.composition? ▸ hc
      cases value with
      | list items => simp only [paths_list items hc, paths_list items hc', h.itemSchema?]
      | map fields => simp only [paths_map fields hc, paths_map fields hc', h.verdict]
      | _ => rw [paths_scalar rfl rfl hc, paths_scalar rfl rfl hc']

/-! ## Combinations of branches -/

/-- One branch of each list, by their places. -/
def pick? : List (List Value) → List Nat → Option (List Value)
  | [], [] => some []
  | branches :: lists, index :: choice =>
    branches[index]?.bind fun branch => (pick? lists choice).map (branch :: ·)
  | _, _ => none

/-- What is found with the first of all combinations that leave the fewest fields undeclared. -/
def IsFirstClosest (lists : List (List Value)) (walk : List Value → List String) (found : List String) : Prop :=
  ∃ choice picked, pick? lists choice = some picked ∧ found = walk picked ∧
    ∀ other picked', pick? lists other = some picked' →
      found.length ≤ (walk picked').length ∧ (other < choice → found.length < (walk picked').length)

theorem pick?_cons_eq_some_iff {branches : List Value} {lists : List (List Value)} {choice : List Nat}
    {picked : List Value} :
    pick? (branches :: lists) choice = some picked ↔
      ∃ index rest branch others, choice = index :: rest ∧ picked = branch :: others ∧
        branches[index]? = some branch ∧ pick? lists rest = some others := by
  cases choice with
  | nil => simp [pick?]
  | cons index rest =>
    rw [pick?, Option.bind_eq_some_iff]
    constructor
    · rintro ⟨branch, hbranch, hpicked⟩
      obtain ⟨others, hothers, rfl⟩ := Option.map_eq_some_iff.mp hpicked
      exact ⟨index, rest, branch, others, rfl, rfl, hbranch, hothers⟩
    · rintro ⟨_, _, branch, others, ⟨⟩, rfl, hbranch, hothers⟩
      exact ⟨branch, hbranch, by rw [hothers]; rfl⟩

theorem fewest_concat {found : List (List String)} (h : found ≠ []) (x : List String) :
    fewest (found ++ [x]) = if x.length < (fewest found).length then x else fewest found := by
  obtain ⟨first, more, rfl⟩ := List.exists_cons_of_ne_nil h
  rw [List.cons_append, fewest, List.foldl_append]
  rfl

/-- The first of the shortest lists: none is shorter, and those before it are longer. -/
theorem fewest_spec {found : List (List String)} (h : found ≠ []) :
    ∃ index, found[index]? = some (fewest found) ∧ ∀ (other : Nat) (x : List String), found[other]? = some x →
      (fewest found).length ≤ x.length ∧ (other < index → (fewest found).length < x.length) := by
  induction found using List.reverseRecOn with
  | nil => exact absurd rfl h
  | append_singleton found x ih =>
    have place {other : Nat} {y : List String} (hy : (found ++ [x])[other]? = some y) :
        other < found.length ∧ found[other]? = some y ∨ other = found.length ∧ y = x := by
      rw [List.getElem?_append] at hy
      split at hy
      · next hlt => exact .inl ⟨hlt, hy⟩
      · next hge =>
        rw [List.getElem?_singleton] at hy
        split at hy
        · next hlast => exact .inr ⟨by omega, (Option.some.inj hy).symm⟩
        · cases hy
    by_cases hnil : found = []
    · subst hnil
      refine ⟨0, rfl, fun other y hy => ?_⟩
      obtain ⟨hlt, -⟩ | ⟨rfl, rfl⟩ := place hy
      · cases hlt
      · exact ⟨Nat.le_refl _, fun hlt => absurd hlt (Nat.lt_irrefl _)⟩
    obtain ⟨index, hindex, hmin⟩ := ih hnil
    have hbound := (List.getElem?_eq_some_iff.mp hindex).1
    rw [fewest_concat hnil]
    split
    · next hshorter =>
      refine ⟨found.length, by simp, fun other y hy => ?_⟩
      obtain ⟨-, hold⟩ | ⟨rfl, rfl⟩ := place hy
      · have := (hmin other y hold).1
        omega
      · omega
    · next hlonger =>
      refine ⟨index, by rw [List.getElem?_append_left hbound, hindex], fun other y hy => ?_⟩
      obtain ⟨-, hold⟩ | ⟨rfl, rfl⟩ := place hy
      · exact hmin other y hold
      · omega

/-- If for each branch of a list the rest is the first closest combination of the lists after it, then the
first closest branch makes it the first closest combination of them all. -/
theorem isFirstClosest_cons {branches : List Value} {lists : List (List Value)} {walk : List Value → List String}
    {result : Value → List String} (hbranches : branches ≠ [])
    (h : ∀ branch ∈ branches, IsFirstClosest lists (fun others => walk (branch :: others)) (result branch)) :
    IsFirstClosest (branches :: lists) walk (fewest (branches.map result)) := by
  have hfound : branches.map result ≠ [] := mt List.map_eq_nil_iff.mp hbranches
  obtain ⟨index, hindex, hmin⟩ := fewest_spec hfound
  rw [List.getElem?_map, Option.map_eq_some_iff] at hindex
  obtain ⟨branch, hbranch, hresult⟩ := hindex
  rw [← hresult] at hmin ⊢
  obtain ⟨rest, others, hothers, hwalk, hclosest⟩ := h branch (List.mem_of_getElem? hbranch)
  refine ⟨index :: rest, branch :: others, pick?_cons_eq_some_iff.mpr
    ⟨index, rest, branch, others, rfl, rfl, hbranch, hothers⟩, hwalk, fun other picked hpicked => ?_⟩
  obtain ⟨index', rest', branch', others', rfl, rfl, hbranch', hothers'⟩ := pick?_cons_eq_some_iff.mp hpicked
  obtain ⟨_, _, -, -, hclosest'⟩ := h branch' (List.mem_of_getElem? hbranch')
  have hinner := (hclosest' rest' others' hothers').1
  have houter := hmin index' (result branch') (by rw [List.getElem?_map, hbranch']; rfl)
  refine ⟨Nat.le_trans houter.1 hinner, fun hlt => ?_⟩
  rcases List.cons_lt_cons_iff.mp hlt with hearlier | ⟨rfl, hrest⟩
  · exact Nat.lt_of_lt_of_le (houter.2 hearlier) hinner
  · obtain rfl : branch' = branch := Option.some.inj (hbranch'.symm.trans hbranch)
    exact (hclosest rest' others' hothers').2 hrest

/-! ## The combination for a schema -/

/-- The lists of branches of a schema, in the order of the keywords. -/
def branchLists (node : Fields) : List (List Value) := compositionKeywords.filterMap (branches? node)

/-- A schema without its composition keywords. -/
def uncomposed (node : Fields) : Fields := compositionKeywords.foldl Dict.erase node

/-- The branches on top of the rest of a schema, one after the other. -/
def combined (node : Fields) (picked : List Value) : Fields := picked.foldl putBranch (uncomposed node)

/-- A branch with no composition keyword at its top. -/
def isFlat : Value → Bool
  | .map branch => compositionKeywords.all fun keyword => !Dict.contains branch keyword
  | _ => true

/-- A schema whose composition keywords have lists with something in them, and only flat branches. -/
def isFlatlyComposed (node : Fields) : Bool :=
  compositionKeywords.all fun keyword =>
    match Dict.get? node keyword with
    | none => true
    | some (.list branches) => !branches.isEmpty && branches.all isFlat
    | some _ => false

theorem isFlatlyComposed_iff {node : Fields} :
    isFlatlyComposed node = true ↔ ∀ keyword ∈ compositionKeywords, ∀ v, Dict.get? node keyword = some v →
      ∃ branches, v = .list branches ∧ branches ≠ [] ∧ ∀ branch ∈ branches, isFlat branch = true := by
  rw [isFlatlyComposed, List.all_eq_true]
  refine forall₂_congr fun keyword _ => ?_
  cases Dict.get? node keyword with
  | none => simp
  | some v => cases v <;> simp

/-- A flat branch leaves the composition of what it is put on as it is. -/
theorem get?_putBranch_of_isFlat {branch : Value} (h : isFlat branch = true) {keyword : String}
    (hkeyword : keyword ∈ compositionKeywords) (node : Fields) :
    Dict.get? (putBranch node branch) keyword = Dict.get? node keyword := by
  cases branch with
  | map fields =>
    have hnone : Dict.get? fields keyword = none := by
      simpa [Dict.contains] using List.all_eq_true.mp h keyword hkeyword
    rw [putBranch, Value.get?_mergeFields, hnone]
  | _ => rfl

theorem get?_foldl_putBranch_of_isFlat {picked : List Value} (h : ∀ branch ∈ picked, isFlat branch = true)
    {keyword : String} (hkeyword : keyword ∈ compositionKeywords) (node : Fields) :
    Dict.get? (picked.foldl putBranch node) keyword = Dict.get? node keyword := by
  induction picked generalizing node with
  | nil => rfl
  | cons branch picked ih =>
    rw [List.foldl_cons, ih (List.forall_mem_cons.mp h).2,
      get?_putBranch_of_isFlat (List.forall_mem_cons.mp h).1 hkeyword]

/-- A flat branch may be put on top before keywords are taken away, or after. -/
theorem alike_erase_putBranch {branch : Value} (h : isFlat branch = true) {keywords : List String}
    (hkeywords : ∀ keyword ∈ keywords, keyword ∈ compositionKeywords) (node : Fields) :
    Alike (keywords.foldl Dict.erase (putBranch node branch)) (putBranch (keywords.foldl Dict.erase node) branch) := by
  intro key
  rw [Dict.get?_foldl_erase]
  split
  · next hkey => rw [get?_putBranch_of_isFlat h (hkeywords key hkey), Dict.get?_foldl_erase, if_pos hkey]
  · next hkey =>
    cases branch with
    | map fields => simp only [putBranch, Value.get?_mergeFields, Dict.get?_foldl_erase, if_neg hkey]
    | _ => simp only [putBranch, Dict.get?_foldl_erase, if_neg hkey]

/-- Among keywords of which only the last ones can be there, the first that is there counts. -/
theorem composition?_of_suffix {keyword : String} {rest : List String} {node : Fields} {branches : List Value}
    (hsuffix : keyword :: rest <:+ compositionKeywords)
    (habsent : ∀ k ∈ compositionKeywords, k ∉ keyword :: rest → Dict.get? node k = none)
    (hget : Dict.get? node keyword = some (.list branches)) : composition? node = some (keyword, branches) := by
  obtain ⟨front, hfront⟩ := hsuffix
  have hdisjoint : ∀ k ∈ front, k ∉ keyword :: rest := by
    have hnodup : (front ++ keyword :: rest).Nodup := hfront ▸ by decide
    exact fun k hk hk' => (List.nodup_append.mp hnodup).2.2 k hk k hk' rfl
  have hnone : (front.findSome? fun k => (branches? node k).map (k, ·)) = none := by
    rw [List.findSome?_eq_none_iff]
    intro k hk
    rw [branches?, habsent k (hfront ▸ List.mem_append_left _ hk) (hdisjoint k hk)]
    rfl
  rw [composition?, ← hfront, List.findSome?_append, hnone, Option.none_or, List.findSome?_cons, branches?, hget]
  rfl

/-- A keyword that is not there need not be taken away. -/
theorem alike_foldl_erase_cons {keyword : String} {node : Fields} (hget : Dict.get? node keyword = none)
    (rest : List String) : Alike ((keyword :: rest).foldl Dict.erase node) (rest.foldl Dict.erase node) := by
  intro key
  rw [Dict.get?_foldl_erase, Dict.get?_foldl_erase]
  by_cases heq : key = keyword
  · rw [heq, if_pos List.mem_cons_self, hget, ite_self]
  · simp only [List.mem_cons, heq, false_or]

section

variable {keyword : String} {branch : Value} (hbranch : isFlat branch = true)

include hbranch

/-- With a flat branch in the place of a keyword, the other keywords have the lists they had. -/
theorem get?_putBranch_erase {k : String} (hk : k ∈ compositionKeywords) (node : Fields) :
    Dict.get? (putBranch (Dict.erase node keyword) branch) k = if k = keyword then none else Dict.get? node k := by
  rw [get?_putBranch_of_isFlat hbranch hk, Dict.get?_erase]

theorem isFlatlyComposed_putBranch_erase {node : Fields} (hflat : isFlatlyComposed node = true) :
    isFlatlyComposed (putBranch (Dict.erase node keyword) branch) = true := by
  rw [isFlatlyComposed_iff] at hflat ⊢
  intro k hk v hv
  rw [get?_putBranch_erase hbranch hk] at hv
  split at hv
  · cases hv
  · exact hflat k hk v hv

theorem filterMap_branches?_putBranch_erase {rest : List String} (hrest : ∀ k ∈ rest, k ∈ compositionKeywords)
    (hnot : keyword ∉ rest) (node : Fields) :
    rest.filterMap (branches? (putBranch (Dict.erase node keyword) branch)) = rest.filterMap (branches? node) := by
  refine List.filterMap_congr fun k hk => ?_
  rw [branches?, branches?, get?_putBranch_erase hbranch (hrest k hk), if_neg]
  rintro rfl
  exact hnot hk

end

/-- The choices for the last keywords, if these are all that compose the schema. -/
theorem isFirstClosest_of_suffix {keywords : List String} (hsuffix : keywords <:+ compositionKeywords)
    {node : Fields} (habsent : ∀ k ∈ compositionKeywords, k ∉ keywords → Dict.get? node k = none)
    (hflat : isFlatlyComposed node = true) (value : Value) (path : String) :
    IsFirstClosest (keywords.filterMap (branches? node))
      (fun picked => paths engine value (.map (picked.foldl putBranch (keywords.foldl Dict.erase node))) path)
      (paths engine value (.map node) path) := by
  induction keywords generalizing node with
  | nil =>
    refine ⟨[], [], rfl, rfl, fun other picked hpicked => ?_⟩
    cases other with
    | nil =>
      obtain rfl : [] = picked := Option.some.inj hpicked
      exact ⟨Nat.le_refl _, fun hlt => absurd hlt (List.not_lt_nil _)⟩
    | cons index rest => cases hpicked
  | cons keyword rest ih =>
    have hrest : rest <:+ compositionKeywords := (List.suffix_cons keyword rest).trans hsuffix
    have hnodup : (keyword :: rest).Nodup := hsuffix.sublist.nodup (by decide)
    have hmem : keyword ∈ compositionKeywords := hsuffix.subset List.mem_cons_self
    cases hget : Dict.get? node keyword with
    | none =>
      have hbranches : branches? node keyword = none := by rw [branches?, hget]; rfl
      have hwalk (picked : List Value) :
          paths engine value (.map (picked.foldl putBranch ((keyword :: rest).foldl Dict.erase node))) path =
            paths engine value (.map (picked.foldl putBranch (rest.foldl Dict.erase node))) path :=
        paths_congr ((alike_foldl_erase_cons hget rest).foldl_putBranch picked) value path
      rw [List.filterMap_cons_none hbranches, funext hwalk]
      refine ih hrest (fun k hk hnot => ?_) hflat
      by_cases heq : k = keyword
      · exact heq ▸ hget
      · exact habsent k hk (by simp [heq, hnot])
    | some v =>
      obtain ⟨branches, rfl, hne, hbranches⟩ := isFlatlyComposed_iff.mp hflat keyword hmem v hget
      have hlist : branches? node keyword = some branches := by rw [branches?, hget]; rfl
      rw [List.filterMap_cons_some hlist, paths_composed (composition?_of_suffix hsuffix habsent hget)]
      refine isFirstClosest_cons hne fun branch hbranch => ?_
      have hown := hbranches branch hbranch
      have hwalk (others : List Value) :
          paths engine value (.map (others.foldl putBranch
              (rest.foldl Dict.erase (putBranch (Dict.erase node keyword) branch)))) path =
            paths engine value (.map ((branch :: others).foldl putBranch
              ((keyword :: rest).foldl Dict.erase node))) path :=
        paths_congr ((alike_erase_putBranch hown hrest.subset _).foldl_putBranch others) value path
      rw [branchSchema_eq, ← funext hwalk,
        ← filterMap_branches?_putBranch_erase hown hrest.subset (List.nodup_cons.mp hnodup).1]
      refine ih hrest (fun k hk hnot => ?_) (isFlatlyComposed_putBranch_erase hown hflat)
      rw [get?_putBranch_erase hown hk]
      split
      · rfl
      · next heq => exact habsent k hk (by simp [heq, hnot])

theorem flat_of_pick? {lists : List (List Value)} {choice : List Nat} {picked : List Value}
    (h : ∀ branches ∈ lists, ∀ branch ∈ branches, isFlat branch = true)
    (hpicked : pick? lists choice = some picked) :
    ∀ branch ∈ picked, isFlat branch = true := by
  induction lists generalizing choice picked with
  | nil =>
    cases choice with
    | nil =>
      obtain rfl : [] = picked := Option.some.inj hpicked
      exact nofun
    | cons index rest => cases hpicked
  | cons branches lists ih =>
    obtain ⟨index, rest, branch, others, rfl, rfl, hbranch, hothers⟩ := pick?_cons_eq_some_iff.mp hpicked
    obtain ⟨hown, hlists⟩ := List.forall_mem_cons.mp h
    exact List.forall_mem_cons.mpr ⟨hown branch (List.mem_of_getElem? hbranch), ih hlists hothers⟩

/-- Whatever the combination, no composition keyword is left. -/
theorem get?_combined {node : Fields} (hflat : isFlatlyComposed node = true) {choice : List Nat}
    {picked : List Value} (hpicked : pick? (branchLists node) choice = some picked) {keyword : String}
    (hkeyword : keyword ∈ compositionKeywords) : Dict.get? (combined node picked) keyword = none := by
  have hlists : ∀ branches ∈ branchLists node, ∀ branch ∈ branches, isFlat branch = true := by
    intro branches hbranches
    obtain ⟨k, hk, hlist⟩ := List.mem_filterMap.mp hbranches
    obtain ⟨v, hv, hv'⟩ := Option.bind_eq_some_iff.mp hlist
    obtain ⟨found, rfl, -, hfound⟩ := isFlatlyComposed_iff.mp hflat k hk v hv
    obtain rfl : found = branches := Option.some.inj hv'
    exact hfound
  rw [combined, get?_foldl_putBranch_of_isFlat (flat_of_pick? hlists hpicked) hkeyword, uncomposed,
    Dict.get?_foldl_erase, if_pos hkeyword]

/-- The walk of a schema that is composed of flat branches is that of the schema with its composition keywords
replaced by one branch of each, in their order: of all combinations of branches, the first that leaves the
fewest fields undeclared. -/
theorem closest_combination {node : Fields} (hflat : isFlatlyComposed node = true) (engine : PatternEngine)
    (value : Value) (path : String) :
    ∃ choice picked, pick? (branchLists node) choice = some picked ∧
      paths engine value (.map node) path = paths engine value (.map (combined node picked)) path ∧
      ∀ other picked', pick? (branchLists node) other = some picked' →
        (∀ keyword ∈ compositionKeywords, Dict.get? (combined node picked') keyword = none) ∧
        (paths engine value (.map (combined node picked)) path).length ≤
          (paths engine value (.map (combined node picked')) path).length ∧
        (other < choice → (paths engine value (.map (combined node picked)) path).length <
          (paths engine value (.map (combined node picked')) path).length) := by
  obtain ⟨choice, picked, hpicked, hwalk, hclosest⟩ :=
    isFirstClosest_of_suffix List.suffix_rfl (fun k hk hnot => absurd hk hnot) hflat value path
  refine ⟨choice, picked, hpicked, hwalk, fun other picked' hpicked' => ?_⟩
  rw [hwalk] at hclosest
  exact ⟨fun keyword => get?_combined hflat hpicked', hclosest other picked' hpicked'⟩

/-- Payments are by card or by cash, and may have a note. -/
def paymentSchema : Fields :=
  [("anyOf", .list [.map [("properties", .map [("card", .bool true)])],
      .map [("properties", .map [("cash", .bool true)])]]),
    ("oneOf", .list [.bool true, .map [("properties", .map [("note", .bool true)])]])]

/-- The last branch of both lists leaves nothing of a payment by cash with a note undeclared. -/
theorem closest_combination_payment :
    isFlatlyComposed paymentSchema = true ∧
      paths .unicode (.map [("cash", .ofNat 5), ("note", .null)]) (.map paymentSchema) "" = [] := by
  have hflat : isFlatlyComposed paymentSchema = true := by decide
  obtain ⟨choice, picked, -, hwalk, hclosest⟩ :=
    closest_combination hflat .unicode (.map [("cash", .ofNat 5), ("note", .null)]) ""
  obtain ⟨-, hle, -⟩ := hclosest [1, 1] _ rfl
  refine ⟨hflat, List.eq_nil_of_length_eq_zero (Nat.le_zero.mp (hwalk ▸ Nat.le_trans hle ?_))⟩
  rw [paths_map _ rfl, List.flatMap_cons, List.flatMap_cons, List.flatMap_nil]
  show (paths _ _ (.bool true) _ ++ (paths _ _ (.bool true) _ ++ [])).length ≤ 0
  rw [paths_of_map?_eq_none rfl, paths_of_map?_eq_none rfl]
  exact Nat.le_refl 0

end Undeclared

end DocModel
