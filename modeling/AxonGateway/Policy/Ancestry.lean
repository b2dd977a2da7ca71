import AxonGateway.Policy.Restriction

/-!
# The ancestor walk

The walk visits exactly the nodes that are reached by following parent links
through stored nodes, whatever cycles or gaps the links have.  The policy of a
node is therefore below the limits of all its ancestors, and the policy of an
environment is below the one of its project as soon as the links of the
environment's node lead to the project.
-/

namespace AxonGateway.Policy

open Relation

variable {nodes nodes' : Nodes} {a b : String}

/-- The node stored under `a` names `b` as its parent. -/
def Link (nodes : Nodes) (a b : String) : Prop :=
  a ≠ "" ∧ ∃ node, nodes.lookup a = some node ∧ node.parentId = some b

/-- Following parent links from `a` leads to `b`. -/
def Ancestor (nodes : Nodes) (a b : String) : Prop :=
  ReflTransGen (Link nodes) a b ∧ b ≠ ""

theorem Ancestor.trans {c : String} (h : Ancestor nodes a b) (h' : Ancestor nodes b c) :
    Ancestor nodes a c := ⟨h.1.trans h'.1, h'.2⟩

theorem Ancestor.self_of_link (h : ¬ ∃ c, Link nodes a c) (hab : ReflTransGen (Link nodes) a b) :
    a = b := by
  rcases hab.cases_head with rfl | ⟨c, hc, -⟩
  · rfl
  · exact absurd ⟨c, hc⟩ h

/-! ## What the walk visits -/

theorem ancestor_of_mem_walkFrom {visited : List String} {start : Option String}
    {node : PolicyNode} (h : node ∈ walkFrom nodes visited start) :
    ∃ a b, start = some a ∧ Ancestor nodes a b ∧ nodes.lookup b = some node := by
  fun_induction walkFrom nodes visited start with
  | case1 => simp at h
  | case2 => simp at h
  | case3 => simp at h
  | case4 visited a hstop n hn ih =>
      have ha : a ≠ "" := fun ha ↦ hstop (.inl ha)
      rcases List.mem_cons.mp h with rfl | h
      · exact ⟨a, a, rfl, ⟨.refl, ha⟩, hn⟩
      · obtain ⟨p, b, hp, hpb, hb⟩ := ih h
        exact ⟨a, b, rfl, ⟨.head ⟨ha, n, hn, hp⟩ hpb.1, hpb.2⟩, hb⟩

/-- A set of ids that the links do not leave contains all that is reached from it. -/
theorem mem_of_closed {visited : List String}
    (hclosed : ∀ v ∈ visited, ∀ c, Link nodes v c → c ∈ visited) (ha : a ∈ visited)
    (hab : ReflTransGen (Link nodes) a b) : b ∈ visited := by
  induction hab with
  | refl => exact ha
  | tail _ hlink ih => exact hclosed _ ih _ hlink

/-- The links of the visited ids lead to visited ids or to the current one, so
what the walk has not visited is still ahead of it. -/
theorem mem_walkFrom {visited : List String} {start : Option String} {node : PolicyNode}
    (hstart : start = some a)
    (hvisited : ∀ v ∈ visited, ∀ c, Link nodes v c → c ∈ visited ∨ c = a)
    (hab : Ancestor nodes a b) (hb : nodes.lookup b = some node) (hnew : b ∉ visited) :
    node ∈ walkFrom nodes visited start := by
  fun_induction walkFrom nodes visited start generalizing a with
  | case1 => simp at hstart
  | case2 visited current hstop =>
      obtain rfl := Option.some.inj hstart
      rcases hstop with rfl | hmem
      · have hb' := Ancestor.self_of_link (by simp [Link]) hab.1
        exact absurd hb'.symm hab.2
      · refine absurd (mem_of_closed (fun v hv c hc ↦ ?_) hmem hab.1) hnew
        rcases hvisited v hv c hc with h | rfl
        · exact h
        · exact hmem
  | case3 visited current hstop hnone =>
      obtain rfl := Option.some.inj hstart
      obtain rfl := Ancestor.self_of_link (by simp [Link, hnone]) hab.1
      rw [hnone] at hb
      simp at hb
  | case4 visited current hstop n hn ih =>
      obtain rfl := Option.some.inj hstart
      rcases hab.1.cases_head with rfl | ⟨p, hlink, hpb⟩
      · rw [hn] at hb
        exact List.mem_cons.mpr (.inl (Option.some.inj hb).symm)
      · obtain ⟨hcurrent, n', hn', hp⟩ := hlink
        obtain rfl : n = n' := Option.some.inj (hn.symm.trans hn')
        by_cases hcb : b = current
        · subst hcb
          rw [hn] at hb
          exact List.mem_cons.mpr (.inl (Option.some.inj hb).symm)
        · refine List.mem_cons_of_mem _ (ih hp (fun v hv c hc ↦ ?_) ⟨hpb, hab.2⟩ ?_)
          · rcases List.mem_cons.mp hv with rfl | hv
            · obtain ⟨-, n'', hn'', hc⟩ := hc
              obtain rfl : n = n'' := Option.some.inj (hn.symm.trans hn'')
              exact .inr (Option.some.inj (hc.symm.trans hp))
            · rcases hvisited v hv c hc with h | rfl
              · exact .inl (List.mem_cons_of_mem _ h)
              · exact .inl List.mem_cons_self
          · simp [hcb, hnew]

/-- The path consists of the stored ancestors of the node where it starts. -/
theorem mem_ancestryFromNodes_iff {projectId : String} {environment : Option String}
    {node : PolicyNode} :
    node ∈ ancestryFromNodes nodes projectId environment ↔
      ∃ b, Ancestor nodes (entryId nodes projectId environment) b ∧ nodes.lookup b = some node := by
  rw [ancestryFromNodes, List.mem_reverse]
  constructor
  · intro h
    obtain ⟨a, b, ha, hab, hb⟩ := ancestor_of_mem_walkFrom h
    obtain rfl := Option.some.inj ha
    exact ⟨b, hab, hb⟩
  · rintro ⟨b, hab, hb⟩
    exact mem_walkFrom rfl (by simp) hab hb (by simp)

/-- The resolved policy is the greatest lower bound over the stored ancestors. -/
theorem le_resolve_iff {projectId : String} {environment : Option String} {rate : Option ℚ}
    {r : Restriction} :
    r ≤ (resolve nodes projectId environment rate).restriction ↔
      r ≤ ({ rateLimitRpm := rate } : Limits).restriction ∧
        ∀ b node, Ancestor nodes (entryId nodes projectId environment) b →
          nodes.lookup b = some node → r ≤ node.limits.restriction := by
  simp only [resolve, restriction_withProjectRateLimit, le_inf_iff, le_resolveAncestry_iff,
    mem_ancestryFromNodes_iff]
  constructor
  · rintro ⟨hwalk, hrate⟩
    exact ⟨hrate, fun b node hab hb ↦ hwalk node ⟨b, hab, hb⟩⟩
  · rintro ⟨hrate, hwalk⟩
    exact ⟨fun node ⟨b, hab, hb⟩ ↦ hwalk b node hab hb, hrate⟩

/-! ## Monotonicity down the tree -/

/-- The policy of the project is at least as restrictive as every limit on its
walk, and the policy in an environment at least as restrictive as without. -/
structure MonotoneAt (nodes : Nodes) (projectId : String) : Prop where
  ancestors : ∀ id node rate, Ancestor nodes projectId id → nodes.lookup id = some node →
    (resolve nodes projectId none rate).AtLeastAsRestrictive node.limits
  environments : ∀ environment rate, (resolve nodes projectId (some environment)
    rate).AtLeastAsRestrictive (resolve nodes projectId none rate).limits

/-- The links from every stored environment of the project lead to the project. -/
def EnvironmentsBelow (nodes : Nodes) (projectId : String) : Prop :=
  projectId ∈ nodes → projectId ≠ "" → ∀ environment, environment ≠ "" →
    projectId ++ ":" ++ environment ∈ nodes →
      Ancestor nodes (projectId ++ ":" ++ environment) projectId

/-- The same ids with the same parents, and any limits. -/
def SameLinks (nodes nodes' : Nodes) : Prop :=
  ∀ id, (nodes'.lookup id).map PolicyNode.parentId = (nodes.lookup id).map PolicyNode.parentId

theorem SameLinks.mem_iff (h : SameLinks nodes nodes') (id : String) : id ∈ nodes' ↔ id ∈ nodes := by
  rw [← AList.lookup_isSome, ← AList.lookup_isSome, ← Option.isSome_map (f := PolicyNode.parentId),
    h id, Option.isSome_map]

theorem SameLinks.link_eq (h : SameLinks nodes nodes') : Link nodes' = Link nodes := by
  have hlink : ∀ (ns : Nodes) (a b : String), Link ns a b ↔
      a ≠ "" ∧ (ns.lookup a).map PolicyNode.parentId = some (some b) := by
    intro ns a b
    simp [Link]
  funext a b
  rw [eq_iff_iff, hlink, hlink, h a]

theorem SameLinks.ancestor_iff (h : SameLinks nodes nodes') :
    Ancestor nodes' a b ↔ Ancestor nodes a b := by
  rw [Ancestor, Ancestor, h.link_eq]

theorem SameLinks.environmentsBelow (h : SameLinks nodes nodes') {projectId : String}
    (hbelow : EnvironmentsBelow nodes projectId) : EnvironmentsBelow nodes' projectId := by
  intro hmem hne environment henv hstored
  exact h.ancestor_iff.mpr
    (hbelow ((h.mem_iff _).mp hmem) hne environment henv ((h.mem_iff _).mp hstored))

/-- The limits of one node are replaced by `l`, those of every other node dropped. -/
def relimit (id : String) (l : Limits) (key : String) (node : PolicyNode) : PolicyNode :=
  { node with limits := if key = id then l else {} }

/-- The nodes with the limits `l` at `id` and none elsewhere. -/
def onlyLimits (nodes : Nodes) (id : String) (l : Limits) : Nodes where
  entries := nodes.entries.map (Sigma.map (fun k ↦ k) (relimit id l))
  nodupKeys := nodes.nodupKeys.map₂ (relimit id l)

theorem lookup_onlyLimits (nodes : Nodes) (id : String) (l : Limits) (key : String) :
    (onlyLimits nodes id l).lookup key = (nodes.lookup key).map (relimit id l key) :=
  List.dlookup_map₂ key

theorem sameLinks_onlyLimits (nodes : Nodes) (id : String) (l : Limits) :
    SameLinks nodes (onlyLimits nodes id l) := by
  intro key
  rw [lookup_onlyLimits, Option.map_map]
  rfl

theorem monotoneAt_of_environmentsBelow {projectId : String}
    (h : EnvironmentsBelow nodes projectId) : MonotoneAt nodes projectId := by
  refine ⟨fun id node rate hid hnode ↦ ?_, fun environment rate ↦ ?_⟩
  · exact atLeastAsRestrictive_iff.mpr ((le_resolve_iff.mp le_rfl).2 id node hid hnode)
  · refine atLeastAsRestrictive_iff.mpr ?_
    change _ ≤ (resolve nodes projectId none rate).restriction
    obtain ⟨hrate, hwalk⟩ := le_resolve_iff.mp
      (le_refl (resolve nodes projectId (some environment) rate).restriction)
    refine le_resolve_iff.mpr ⟨hrate, fun b node hb hnode ↦ hwalk b node ?_ hnode⟩
    by_cases hentry : environment ≠ "" ∧ projectId ++ ":" ++ environment ∈ nodes
    · have hproject : projectId ≠ "" ∧ projectId ∈ nodes := by
        rcases hb.1.cases_head with heq | ⟨c, hc, -⟩
        · rw [show projectId = b from heq]
          exact ⟨hb.2, AList.lookup_isSome.mp (by rw [hnode]; rfl)⟩
        · obtain ⟨hne, n, hn, -⟩ := hc
          exact ⟨hne, AList.lookup_isSome.mp (by rw [show nodes.lookup projectId = _ from hn]; rfl)⟩
      simp only [entryId, if_pos hentry]
      exact (h hproject.2 hproject.1 environment hentry.1 hentry.2).trans hb
    · simpa only [entryId, if_neg hentry] using hb

/-- For given parent links, resolution is monotone for all limits exactly when
the environments of the project lie below it. -/
theorem monotoneAt_iff_environmentsBelow (nodes : Nodes) (projectId : String) :
    (∀ nodes', SameLinks nodes nodes' → MonotoneAt nodes' projectId) ↔
      EnvironmentsBelow nodes projectId := by
  refine ⟨fun h hmem hne environment henv hstored ↦ ?_,
    fun h nodes' hlinks ↦ monotoneAt_of_environmentsBelow (hlinks.environmentsBelow h)⟩
  by_contra hnot
  -- a budget on the project alone is lost in an environment that misses the project
  set l : Limits := { budgetLimit := some 0 } with hl
  have hlinks := sameLinks_onlyLimits nodes projectId l
  have hentry : entryId (onlyLimits nodes projectId l) projectId (some environment) =
      projectId ++ ":" ++ environment := by
    simp only [entryId, if_pos (And.intro henv ((hlinks.mem_iff _).mpr hstored))]
  have htop : ⊤ ≤ (resolve (onlyLimits nodes projectId l) projectId (some environment)
      none).restriction := by
    refine le_resolve_iff.mpr ⟨le_rfl, fun b node hb hnode ↦ ?_⟩
    rw [hentry, hlinks.ancestor_iff] at hb
    have hbne : b ≠ projectId := fun hbp ↦ hnot (hbp ▸ hb)
    rw [lookup_onlyLimits] at hnode
    obtain ⟨n, -, rfl⟩ := Option.map_eq_some_iff.mp hnode
    rw [relimit, if_neg hbne]
    exact le_rfl
  have hmono := (h _ hlinks).environments environment none
  obtain ⟨n, hn⟩ := Option.isSome_iff_exists.mp (AList.lookup_isSome.mpr hmem)
  have hlookup : (onlyLimits nodes projectId l).lookup projectId =
      some { n with limits := l } := by
    rw [lookup_onlyLimits, hn]
    simp [relimit]
  have hproject := (h _ hlinks).ancestors projectId _ none ⟨.refl, hne⟩ hlookup
  have hle := htop.trans ((atLeastAsRestrictive_iff.mp hmono).trans
    (atLeastAsRestrictive_iff.mp hproject))
  have hbudget : (⊤ : WithTop ℚ) ≤ (bound (fun v ↦ v) l.budgetLimit) := hle.1.2.1
  simp [hl, bound] at hbudget

/-- A project with a budget whose environment hangs elsewhere. -/
def detachedEnvironment : Nodes :=
  ((∅ : Nodes).insert "p" { nodeId := "p", limits := { budgetLimit := some 10 } }).insert
    "p:prod" { nodeId := "p:prod", parentId := some "org" }

/-- The budget of the project does not hold in its environment. -/
theorem not_monotoneAt_detachedEnvironment : ¬ MonotoneAt detachedEnvironment "p" := by
  intro h
  have hbudget := (h.environments "prod" none).budgetLimit 10 (by decide +kernel)
  have hnone : (resolve detachedEnvironment "p" (some "prod") none).budgetLimit = none := by
    decide +kernel
  simp [hnone] at hbudget

end AxonGateway.Policy
