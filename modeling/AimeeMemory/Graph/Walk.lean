import AimeeMemory.Core.Store
import AimeeMemory.Lib.Bfs

/-!
# The typed walk of the graph

`memory_graph_walk` of `memory_episodes.c`: a walk through `entity_edges` from a seed, hop by
hop, along the relations of a mask.

## What is proved

* **`memoryGraphWalk_breadthFirst`**: with names that fit the buffers, at most 50 edges at a node, at most 256 nodes in
  reach and an output that does not fill up, the walk is a breadth-first search along the edges that pass the mask and
  have no empty text.
* **`memoryGraphWalk_passedOver`**: an edge without a relation text that passes the mask, and a seed of 256 bytes.

## Honest scope

The database is any list of rows of which a step gives so many of those at a node, in some order. The sizes of the
fields of an entry are in a header that is not in the repository.
-/

namespace AimeeMemory.Graph

open AimeeMemory.Core AimeeMemory.Lib

/-- `db2_entity_edge_typed_t`. -/
structure EntityEdge where
  source : Text
  relation : Text
  target : Text
  relationId : ℤ
  subjectKind : ℤ
  objectKind : ℤ
  weight : ℤ
  deriving DecidableEq, Repr

/-- `graph_walk_entry_t`. -/
structure GraphWalkEntry extends EntityEdge where
  hop : ℕ
  deriving DecidableEq, Repr

/-- The sizes of the texts of `graph_walk_entry_t`. -/
structure EntrySizes where
  source : ℕ
  relation : ℕ
  target : ℕ

/-- An edge has a node at one of its ends. -/
def EntityEdge.At (e : EntityEdge) (node : Text) : Prop := e.source = node ∨ e.target = node

instance (e : EntityEdge) (node : Text) : Decidable (e.At node) := inferInstanceAs (Decidable (_ ∨ _))

/-- The rows of `entity_edges`, and `db2_entity_edge_walk_step_typed`. -/
structure EdgeDb where
  edges : List EntityEdge
  walkStepTyped : Text → ℕ → List EntityEdge
  walkStepTyped_eq : ∀ node cap, ∃ rows : List EntityEdge,
    rows.Perm (edges.filter (·.At node)) ∧ walkStepTyped node cap = rows.take cap

def relCoDiscussed : ℤ := 12

/-- `RELATION_MASK_ALL`. -/
def relationMaskAll : UInt32 := 0xffffffff

def walkMaxFrontier : ℕ := 256

/-- The relation an edge is taken for. -/
def EntityEdge.walkRelation (e : EntityEdge) : ℤ :=
  if e.relationId < 0 ∨ 100 ≤ e.relationId then relCoDiscussed else e.relationId

def relationBit (rid : ℤ) : UInt32 := if rid < 32 then 1 <<< UInt32.ofNat rid.toNat else 0

/-- The relation of an edge passes the mask. -/
def EntityEdge.Passes (relationMask : UInt32) (e : EntityEdge) : Prop :=
  relationMask &&& relationBit e.walkRelation ≠ 0 ∨ relationMask = relationMaskAll

instance (relationMask : UInt32) (e : EntityEdge) : Decidable (e.Passes relationMask) :=
  inferInstanceAs (Decidable (_ ∨ _))

/-- None of the texts of an edge is empty. -/
def EntityEdge.Full (e : EntityEdge) : Prop := e.source ≠ [] ∧ e.relation ≠ [] ∧ e.target ≠ []

instance (e : EntityEdge) : Decidable e.Full := inferInstanceAs (Decidable (_ ∧ _))

/-- The side of an edge that is not `node`. -/
def EntityEdge.neighbour (e : EntityEdge) (node : Text) : Text := if e.source = node then e.target else e.source

/-- A name in a buffer of 256 bytes. -/
def walkName (name : Text) : Text := name.take 255

/-- The entry of an edge. -/
def EntityEdge.entry (sizes : EntrySizes) (e : EntityEdge) (hop : ℕ) : GraphWalkEntry where
  source := e.source.take (sizes.source - 1)
  relation := e.relation.take (sizes.relation - 1)
  target := e.target.take (sizes.target - 1)
  relationId := e.walkRelation
  subjectKind := e.subjectKind
  objectKind := e.objectKind
  weight := e.weight
  hop := hop

/-- What the walk writes: `visited`, `out` and `next_frontier`. -/
structure Walk where
  visited : List Text
  out : List GraphWalkEntry
  next : List Text

section

variable (db : EdgeDb) (relationMask : UInt32) (sizes : EntrySizes) (max hop : ℕ)

/-- A row whose neighbour is new: the buffers take it while they have room. -/
def Walk.add (node : Text) (w : Walk) (e : EntityEdge) : Walk where
  visited := if w.visited.length < walkMaxFrontier then w.visited ++ [walkName (e.neighbour node)] else w.visited
  out := w.out ++ [e.entry sizes (hop + 1)]
  next := if w.next.length < walkMaxFrontier then w.next ++ [walkName (e.neighbour node)] else w.next

/-- A row of the edges at `node`. -/
def Walk.visit (node : Text) (w : Walk) (e : EntityEdge) : Walk :=
  if max ≤ w.out.length then w
  else if ¬ e.Passes relationMask then w
  else if ¬ e.Full then w
  else if e.neighbour node ∈ w.visited then w
  else w.add sizes hop node e

/-- A node of the frontier. -/
def Walk.expand (w : Walk) (node : Text) : Walk :=
  if max ≤ w.out.length then w
  else (db.walkStepTyped node 50).foldl (Walk.visit relationMask sizes max hop node) w

/-- A hop. -/
def Walk.round (frontier : List Text) (w : Walk) : Walk :=
  frontier.foldl (Walk.expand db relationMask sizes max hop) { w with next := [] }

/-- The hops that are left, from `hop` on. -/
def walkHops : ℕ → ℕ → List Text → Walk → List GraphWalkEntry
  | 0, _, _, w => w.out
  | left + 1, hop, frontier, w =>
    if frontier = [] ∨ max ≤ w.out.length then w.out
    else
      let w := Walk.round db relationMask sizes max hop frontier w
      walkHops left (hop + 1) ((w.next.take walkMaxFrontier).map walkName) w

end

/-- `memory_graph_walk`. -/
def memoryGraphWalk (db : EdgeDb) (sizes : EntrySizes) (seedEntity : Option Text) (relationMask : UInt32) (maxHops max : ℤ) :
    List GraphWalkEntry :=
  match seedEntity with
  | none => []
  | some seed =>
    if max ≤ 0 then []
    else walkHops db relationMask sizes max.toNat maxHops.toNat 0 [walkName seed] ⟨[walkName seed], [], []⟩

/-! ## What a search is -/

/-- An edge leads from one node to another, whichever way it goes. -/
def EntityEdge.Joins (e : EntityEdge) (y x : Text) : Prop := e.source = y ∧ e.target = x ∨ e.source = x ∧ e.target = y

/-- The graph of some edges. -/
def edgeGraph (edges : List EntityEdge) : SimpleGraph Text where
  Adj x y := x ≠ y ∧ ∃ e ∈ edges, e.Joins x y
  symm := ⟨fun _ _ ⟨hne, e, he, hjoins⟩ => ⟨hne.symm, e, he, hjoins.symm⟩⟩
  loopless := ⟨fun _ h => h.1 rfl⟩

/-- An entry is of an edge to `x` from a node one nearer to the seed, and has the distance of `x`. -/
structure NewEnd (edges : List EntityEdge) (sizes : EntrySizes) (seed : Text) (entry : GraphWalkEntry) (x : Text) : Prop where
  edist_eq : (edgeGraph edges).edist seed x = entry.hop
  of_edge : ∃ e ∈ edges, entry = e.entry sizes entry.hop ∧
    ∃ y, e.Joins y x ∧ (edgeGraph edges).edist seed y + 1 = entry.hop

/-- The entries list the nodes within `maxHops` of the seed, but not the seed, each once as the new end. -/
def BreadthFirst (edges : List EntityEdge) (sizes : EntrySizes) (seed : Text) (maxHops : ℤ) (entries : List GraphWalkEntry) :
    Prop :=
  ∃ nodes : List Text, nodes.Nodup ∧
    (∀ x, x ∈ nodes ↔ x ≠ seed ∧ (edgeGraph edges).edist seed x ≤ maxHops.toNat) ∧
    List.Forall₂ (NewEnd edges sizes seed) entries nodes

/-- The edges that pass a mask. -/
def EdgeDb.passing (db : EdgeDb) (relationMask : UInt32) : List EntityEdge := db.edges.filter (·.Passes relationMask)

/-- The edges that pass a mask and have no empty text. -/
def EdgeDb.usable (db : EdgeDb) (relationMask : UInt32) : List EntityEdge := (db.passing relationMask).filter (·.Full)

/-- At most 50 edges are at a node, and at most 256 nodes within the hops of the seed. -/
structure Bounded (db : EdgeDb) (edges : List EntityEdge) (seed : Text) (maxHops : ℤ) : Prop where
  edges_le : ∀ node, (db.edges.filter (·.At node)).length ≤ 50
  nodes_le : {x | (edgeGraph edges).edist seed x ≤ maxHops.toNat}.encard ≤ 256

/-- The seed and the names of the nodes fit the buffers. -/
structure NamesFit (db : EdgeDb) (seed : Text) : Prop where
  seed_lt : seed.length < 256
  source_lt : ∀ e ∈ db.edges, e.source.length < 256
  target_lt : ∀ e ∈ db.edges, e.target.length < 256

/-! ## The edges -/

section

variable {db : EdgeDb} {relationMask : UInt32} {sizes : EntrySizes} {max hop : ℕ} {maxHops : ℤ} {seed node : Text}
  {e : EntityEdge} {w : Walk} {done : List Text} {found : List (Text × ℕ)}

theorem walkName_of_lt {name : Text} (h : name.length < 256) : walkName name = name :=
  List.take_of_length_le (Nat.le_of_lt_succ h)

theorem EdgeDb.mem_usable : e ∈ db.usable relationMask ↔ e ∈ db.edges ∧ e.Passes relationMask ∧ e.Full := by
  rw [EdgeDb.usable, EdgeDb.passing, List.mem_filter, List.mem_filter, decide_eq_true_iff, decide_eq_true_iff, and_assoc]

/-- With at most 50 edges at a node, a step gives just these. -/
theorem EdgeDb.mem_walkStepTyped (hle : (db.edges.filter (·.At node)).length ≤ 50) :
    e ∈ db.walkStepTyped node 50 ↔ e ∈ db.edges ∧ e.At node := by
  obtain ⟨rows, hperm, hrows⟩ := db.walkStepTyped_eq node 50
  rw [hrows, List.take_of_length_le (hperm.length_eq ▸ hle), hperm.mem_iff, List.mem_filter, decide_eq_true_iff]

theorem EntityEdge.At.joins (h : e.At node) : e.Joins node (e.neighbour node) := by
  rw [EntityEdge.neighbour]
  split_ifs with hsource
  · exact .inl ⟨hsource, rfl⟩
  · exact .inr ⟨rfl, h.resolve_left hsource⟩

theorem NamesFit.neighbour_lt (h : NamesFit db seed) (he : e ∈ db.edges) : (e.neighbour node).length < 256 := by
  rw [EntityEdge.neighbour]
  split_ifs
  · exact h.target_lt e he
  · exact h.source_lt e he

/-- The neighbour of a node is the other end of each edge that leads to another node. -/
theorem EntityEdge.Joins.neighbour_eq {x y : Text} (h : e.Joins y x) (hne : y ≠ x) : e.neighbour y = x := by
  rw [EntityEdge.neighbour]
  rcases h with ⟨hsource, htarget⟩ | ⟨hsource, -⟩
  · rw [if_pos hsource, htarget]
  · rw [hsource, if_neg hne.symm]

/-! ## A hop -/

/-- What a walk has written, besides the seed, is what is found. -/
structure Tracks (edges : List EntityEdge) (sizes : EntrySizes) (seed : Text) (hop : ℕ) (w : Walk) (found : List (Text × ℕ)) :
    Prop where
  visited : w.visited = seed :: found.map Prod.fst
  next : w.next = (found.filter (·.2 = hop + 1)).map Prod.fst
  out : List.Forall₂ (NewEnd edges sizes seed) w.out (found.map Prod.fst)

/-- In a hop the walk searches the graph of the usable edges, the nodes of `done` being expanded. -/
def Searching (db : EdgeDb) (relationMask : UInt32) (sizes : EntrySizes) (seed : Text) (hop : ℕ) (done : List Text) (w : Walk) :
    Prop :=
  ∃ found, Tracks (db.usable relationMask) sizes seed hop w found ∧
    Exploring (edgeGraph (db.usable relationMask)) seed hop done ((seed, 0) :: found)

theorem Tracks.mem_visited (h : Tracks (db.usable relationMask) sizes seed hop w found) {x : Text} :
    x ∈ w.visited ↔ x ∈ ((seed, 0) :: found).map Prod.fst := by
  rw [h.visited, List.map_cons]

/-- A neighbour that is new is found. -/
theorem Searching.add (hfit : NamesFit db seed) (hbound : Bounded db (db.usable relationMask) seed maxHops)
    (hhop : hop < maxHops.toNat) (h : Searching db relationMask sizes seed hop done w)
    (hnode : (edgeGraph (db.usable relationMask)).edist seed node = hop) (he : e ∈ db.usable relationMask)
    (hat : e.At node) (hnew : e.neighbour node ∉ w.visited) :
    Searching db relationMask sizes seed hop done (w.add sizes hop node e) ∧
      (w.add sizes hop node e).visited = w.visited ++ [e.neighbour node] := by
  obtain ⟨found, htracks, hexploring⟩ := h
  have hne : node ≠ e.neighbour node := by
    intro heq
    refine hnew (htracks.mem_visited.2 (hexploring.complete _ ?_))
    rw [← heq, hnode]
  have hadj : (edgeGraph (db.usable relationMask)).Adj node (e.neighbour node) := ⟨hne, e, he, hat.joins⟩
  have hfind := hexploring.find hnode hadj (mt htracks.mem_visited.2 hnew)
  -- One more node is within reach, so the nodes so far leave a place.
  have hlength : (((seed, 0) :: found) ++ [(e.neighbour node, hop + 1)]).length ≤ 256 :=
    hfind.length_le hhop hbound.nodes_le
  rw [List.length_append, List.length_cons, List.length_singleton] at hlength
  have hvisited : w.visited.length < walkMaxFrontier := by
    rw [htracks.visited, List.length_cons, List.length_map, walkMaxFrontier]
    omega
  have hnext : w.next.length < walkMaxFrontier := by
    have := List.length_filter_le (fun p : Text × ℕ => p.2 = hop + 1) found
    rw [htracks.next, List.length_map, walkMaxFrontier]
    omega
  rw [Walk.add, if_pos hvisited, if_pos hnext, walkName_of_lt (hfit.neighbour_lt (EdgeDb.mem_usable.1 he).1)]
  refine ⟨⟨found ++ [(e.neighbour node, hop + 1)], ⟨?_, ?_, ?_⟩, hfind⟩, rfl⟩
  · simp [htracks.visited]
  · simp [htracks.next]
  · rw [List.map_append]
    refine List.rel_append htracks.out (.cons ⟨?_, e, he, rfl, node, hat.joins, ?_⟩ .nil)
    · exact hfind.edist_eq (e.neighbour node, hop + 1) (List.mem_append_right _ (List.mem_singleton.2 rfl))
    · rw [hnode]
      rfl

/-- A row is visited, unless the output is full. -/
theorem Searching.visit (hfit : NamesFit db seed) (hbound : Bounded db (db.usable relationMask) seed maxHops)
    (hhop : hop < maxHops.toNat) (h : Searching db relationMask sizes seed hop done w)
    (hnode : (edgeGraph (db.usable relationMask)).edist seed node = hop) (he : e ∈ db.edges) (hat : e.At node) :
    max ≤ w.out.length ∨
      Searching db relationMask sizes seed hop done (w.visit relationMask sizes max hop node e) ∧
        w.visited ⊆ (w.visit relationMask sizes max hop node e).visited ∧
        (e ∈ db.usable relationMask → e.neighbour node ∈ (w.visit relationMask sizes max hop node e).visited) := by
  rw [Walk.visit]
  by_cases hfull : max ≤ w.out.length
  · exact .inl hfull
  rw [if_neg hfull]
  refine .inr ?_
  by_cases hpasses : e.Passes relationMask
  · rw [if_neg (not_not.2 hpasses)]
    by_cases htexts : e.Full
    · rw [if_neg (not_not.2 htexts)]
      split_ifs with hold
      · exact ⟨h, List.Subset.refl _, fun _ => hold⟩
      · obtain ⟨hadd, hvisited⟩ := h.add hfit hbound hhop hnode (EdgeDb.mem_usable.2 ⟨he, hpasses, htexts⟩) hat hold
        rw [hvisited]
        exact ⟨hadd, List.subset_append_left _ _, fun _ => List.mem_append_right _ (List.mem_singleton.2 rfl)⟩
    · rw [if_pos htexts]
      exact ⟨h, List.Subset.refl _, fun hu => absurd (EdgeDb.mem_usable.1 hu).2.2 htexts⟩
  · rw [if_pos hpasses]
    exact ⟨h, List.Subset.refl _, fun hu => absurd (EdgeDb.mem_usable.1 hu).2.1 hpasses⟩

/-- A full output stays as it is. -/
theorem foldl_visit_of_full (hfull : max ≤ w.out.length) (rows : List EntityEdge) :
    rows.foldl (Walk.visit relationMask sizes max hop node) w = w := by
  refine List.foldl_fixed' (fun e => ?_) rows
  rw [Walk.visit, if_pos hfull]

theorem foldl_expand_of_full (hfull : max ≤ w.out.length) (frontier : List Text) :
    frontier.foldl (Walk.expand db relationMask sizes max hop) w = w := by
  refine List.foldl_fixed' (fun node => ?_) frontier
  rw [Walk.expand, if_pos hfull]

/-- A full walk stays as it is. -/
theorem walkHops_of_full {left : ℕ} (hfull : max ≤ w.out.length) (frontier : List Text) :
    walkHops db relationMask sizes max left hop frontier w = w.out := by
  cases left with
  | zero => rfl
  | succ left => rw [walkHops, if_pos (.inr hfull)]

theorem Searching.visitRows (hfit : NamesFit db seed) (hbound : Bounded db (db.usable relationMask) seed maxHops)
    (hhop : hop < maxHops.toNat) (hnode : (edgeGraph (db.usable relationMask)).edist seed node = hop)
    {rows : List EntityEdge} (hrows : ∀ e ∈ rows, e ∈ db.edges ∧ e.At node)
    (h : Searching db relationMask sizes seed hop done w) :
    max ≤ (rows.foldl (Walk.visit relationMask sizes max hop node) w).out.length ∨
      Searching db relationMask sizes seed hop done (rows.foldl (Walk.visit relationMask sizes max hop node) w) ∧
        w.visited ⊆ (rows.foldl (Walk.visit relationMask sizes max hop node) w).visited ∧
        ∀ e ∈ rows, e ∈ db.usable relationMask →
          e.neighbour node ∈ (rows.foldl (Walk.visit relationMask sizes max hop node) w).visited := by
  induction rows generalizing w with
  | nil => exact .inr ⟨h, List.Subset.refl _, fun _ he => absurd he List.not_mem_nil⟩
  | cons e rows ih =>
    obtain ⟨he, hrows⟩ := List.forall_mem_cons.1 hrows
    rcases h.visit hfit hbound hhop hnode he.1 he.2 with hfull | ⟨hvisit, hsub, hseen⟩
    · rw [foldl_visit_of_full hfull]
      exact .inl hfull
    · rw [List.foldl_cons]
      refine (ih hrows hvisit).imp_right ?_
      rintro ⟨hrest, hsub', hseen'⟩
      refine ⟨hrest, List.Subset.trans hsub hsub', ?_⟩
      exact List.forall_mem_cons.2 ⟨fun hu => hsub' (hseen hu), hseen'⟩

/-- A node of the frontier is expanded, unless the output gets full. -/
theorem Searching.expand (hfit : NamesFit db seed) (hbound : Bounded db (db.usable relationMask) seed maxHops)
    (hhop : hop < maxHops.toNat) (h : Searching db relationMask sizes seed hop done w)
    (hnode : (edgeGraph (db.usable relationMask)).edist seed node = hop) :
    max ≤ (w.expand db relationMask sizes max hop node).out.length ∨
      Searching db relationMask sizes seed hop (node :: done) (w.expand db relationMask sizes max hop node) := by
  rw [Walk.expand]
  split_ifs with hfull
  · exact .inl hfull
  have hrows : ∀ e, e ∈ db.walkStepTyped node 50 ↔ e ∈ db.edges ∧ e.At node :=
    fun e => EdgeDb.mem_walkStepTyped (hbound.edges_le node)
  refine (h.visitRows hfit hbound hhop hnode fun e he => (hrows e).1 he).imp_right ?_
  rintro ⟨⟨found, htracks, hexploring⟩, -, hseen⟩
  refine ⟨found, htracks, hexploring.expand ?_⟩
  rintro y ⟨hne, e, he, hjoins⟩
  have hat : e.At node := hjoins.imp And.left And.right
  have hneighbour := hseen e ((hrows e).2 ⟨(EdgeDb.mem_usable.1 he).1, hat⟩) he
  rwa [hjoins.neighbour_eq hne, htracks.mem_visited] at hneighbour

theorem Searching.expandAll (hfit : NamesFit db seed) (hbound : Bounded db (db.usable relationMask) seed maxHops)
    (hhop : hop < maxHops.toNat) {frontier : List Text}
    (hfrontier : ∀ x ∈ frontier, (edgeGraph (db.usable relationMask)).edist seed x = hop)
    (h : Searching db relationMask sizes seed hop done w) :
    max ≤ (frontier.foldl (Walk.expand db relationMask sizes max hop) w).out.length ∨
      Searching db relationMask sizes seed hop (frontier.reverse ++ done)
        (frontier.foldl (Walk.expand db relationMask sizes max hop) w) := by
  induction frontier generalizing w done with
  | nil => exact .inr h
  | cons node frontier ih =>
    obtain ⟨hnode, hfrontier⟩ := List.forall_mem_cons.1 hfrontier
    rw [List.foldl_cons, List.reverse_cons, List.append_assoc, List.singleton_append]
    rcases h.expand hfit hbound hhop hnode with hfull | hexpand
    · rw [foldl_expand_of_full hfull]
      exact .inl hfull
    · exact ih hfrontier hexpand

/-! ## The hops -/

/-- Between two hops the nodes up to a distance are found, and the frontier is of those at it. -/
structure Searched (db : EdgeDb) (relationMask : UInt32) (sizes : EntrySizes) (seed : Text) (hop : ℕ) (frontier : List Text)
    (w : Walk) (found : List (Text × ℕ)) : Prop where
  visited : w.visited = seed :: found.map Prod.fst
  out : List.Forall₂ (NewEnd (db.usable relationMask) sizes seed) w.out (found.map Prod.fst)
  explored : Explored (edgeGraph (db.usable relationMask)) seed hop ((seed, 0) :: found)
  frontier : ∀ x, x ∈ frontier ↔ (edgeGraph (db.usable relationMask)).edist seed x = hop

theorem Searched.searching {frontier : List Text} (h : Searched db relationMask sizes seed hop frontier w found) :
    Searching db relationMask sizes seed hop [] { w with next := [] } := by
  refine ⟨found, ⟨h.visited, ?_, h.out⟩, h.explored.exploring⟩
  rw [List.filter_eq_nil_iff.2, List.map_nil]
  intro p hp hnext
  have := h.explored.le p (List.mem_cons_of_mem _ hp)
  have := of_decide_eq_true hnext
  omega

/-- A node at a distance is the end of an edge, so its name fits. -/
theorem NamesFit.name_lt (hfit : NamesFit db seed) {x : Text} {n : ℕ}
    (hx : (edgeGraph (db.usable relationMask)).edist seed x = (n + 1 : ℕ)) : x.length < 256 := by
  obtain ⟨y, -, -, e, he, hjoins⟩ := exists_adj_of_edist hx
  have he := (EdgeDb.mem_usable.1 he).1
  rcases hjoins with ⟨-, htarget⟩ | ⟨hsource, -⟩
  · exact htarget ▸ hfit.target_lt e he
  · exact hsource ▸ hfit.source_lt e he

/-- The next frontier is of the nodes one further. -/
theorem Tracks.mem_next (h : Tracks (db.usable relationMask) sizes seed hop w found)
    (hexploring : Exploring (edgeGraph (db.usable relationMask)) seed hop done ((seed, 0) :: found))
    (hcomplete : Explored (edgeGraph (db.usable relationMask)) seed (hop + 1) ((seed, 0) :: found)) {x : Text} :
    x ∈ w.next ↔ (edgeGraph (db.usable relationMask)).edist seed x = (hop + 1 : ℕ) := by
  rw [h.next, List.mem_map]
  constructor
  · rintro ⟨p, hp, rfl⟩
    obtain ⟨hp, hnext⟩ := List.mem_filter.1 hp
    rw [hexploring.edist_eq p (List.mem_cons_of_mem _ hp), of_decide_eq_true hnext]
  · intro hx
    obtain ⟨p, hp, rfl⟩ := List.mem_map.1 (hcomplete.complete x hx.le)
    have hnext : p.2 = hop + 1 := by
      rw [hexploring.edist_eq p hp] at hx
      exact_mod_cast hx
    rcases List.mem_cons.1 hp with rfl | hp
    · cases hnext
    · exact ⟨p, List.mem_filter.2 ⟨hp, decide_eq_true hnext⟩, rfl⟩

/-- **A hop** leads from the nodes up to a distance to those up to the next one, unless the output gets full. -/
theorem Searched.round (hfit : NamesFit db seed) (hbound : Bounded db (db.usable relationMask) seed maxHops)
    (hhop : hop < maxHops.toNat) {frontier : List Text}
    (h : Searched db relationMask sizes seed hop frontier w found) :
    max ≤ (w.round db relationMask sizes max hop frontier).out.length ∨
      ∃ found, Searched db relationMask sizes seed (hop + 1)
        (((w.round db relationMask sizes max hop frontier).next.take walkMaxFrontier).map walkName)
        (w.round db relationMask sizes max hop frontier) found := by
  rw [Walk.round]
  refine (h.searching.expandAll hfit hbound hhop fun x hx => (h.frontier x).1 hx).imp_right ?_
  generalize frontier.foldl (Walk.expand db relationMask sizes max hop) { w with next := [] } = w'
  rintro ⟨found, htracks, hexploring⟩
  have hexplored := hexploring.finish fun x hx => by
    rw [List.append_nil, List.mem_reverse]
    exact (h.frontier x).2 hx
  have hnext : (w'.next.take walkMaxFrontier).map walkName = w'.next := by
    have hlength : ((seed, 0) :: found).length ≤ 256 := hexploring.length_le hhop hbound.nodes_le
    have hfilter := List.length_filter_le (fun p : Text × ℕ => p.2 = hop + 1) found
    rw [List.take_of_length_le, List.map_congr_left, List.map_id]
    · intro x hx
      exact walkName_of_lt (hfit.name_lt ((htracks.mem_next hexploring hexplored).1 hx))
    · rw [htracks.next, List.length_map, walkMaxFrontier]
      rw [List.length_cons] at hlength
      omega
  refine ⟨found, htracks.visited, htracks.out, hexplored, fun x => ?_⟩
  rw [hnext]
  exact htracks.mem_next hexploring hexplored

/-- The hops that are left search the rest, unless the output gets full. -/
theorem Searched.hops (hfit : NamesFit db seed) (hbound : Bounded db (db.usable relationMask) seed maxHops) (left : ℕ)
    (hleft : hop + left = maxHops.toNat) {frontier : List Text}
    (h : Searched db relationMask sizes seed hop frontier w found) :
    max ≤ (walkHops db relationMask sizes max left hop frontier w).length ∨
      ∃ found, List.Forall₂ (NewEnd (db.usable relationMask) sizes seed)
          (walkHops db relationMask sizes max left hop frontier w) (found.map Prod.fst) ∧
        Explored (edgeGraph (db.usable relationMask)) seed maxHops.toNat ((seed, 0) :: found) := by
  induction left generalizing hop frontier w found with
  | zero =>
    rw [Nat.add_zero] at hleft
    exact .inr ⟨found, h.out, hleft ▸ h.explored⟩
  | succ left ih =>
    rw [walkHops]
    split_ifs with hstop
    · rcases hstop with rfl | hfull
      · have hnone : ∀ x, (edgeGraph (db.usable relationMask)).edist seed x ≠ hop :=
          fun x hx => List.not_mem_nil ((h.frontier x).2 hx)
        exact .inr ⟨found, h.out, h.explored.mono hnone (by omega)⟩
      · exact .inl hfull
    · rcases h.round hfit hbound (by omega) with hfull | ⟨found, hround⟩
      · left
        rwa [walkHops_of_full hfull]
      · exact ih (by omega) hround

/-- At first just the seed is found. -/
theorem Searched.start : Searched db relationMask sizes seed 0 [seed] ⟨[seed], [], []⟩ [] where
  visited := rfl
  out := .nil
  explored := Explored.start
  frontier := by
    intro x
    rw [List.mem_singleton, Nat.cast_zero, SimpleGraph.edist_eq_zero_iff, eq_comm]

/-- **The walk is a breadth-first search** of the edges that pass the mask and have no empty text. -/
theorem memoryGraphWalk_breadthFirst {max : ℤ} (hfit : NamesFit db seed)
    (hbound : Bounded db (db.usable relationMask) seed maxHops)
    (hroom : (memoryGraphWalk db sizes (some seed) relationMask maxHops max).length < max) :
    BreadthFirst (db.usable relationMask) sizes seed maxHops
      (memoryGraphWalk db sizes (some seed) relationMask maxHops max) := by
  have hpos : ¬ max ≤ 0 := by omega
  have hwalk : memoryGraphWalk db sizes (some seed) relationMask maxHops max =
      walkHops db relationMask sizes max.toNat maxHops.toNat 0 [seed] ⟨[seed], [], []⟩ := by
    simp only [memoryGraphWalk]
    rw [if_neg hpos, walkName_of_lt hfit.seed_lt]
  rw [hwalk] at hroom ⊢
  have hstart : Searched db relationMask sizes seed 0 [seed] ⟨[seed], [], []⟩ [] := .start
  have hnotfull : ¬ max.toNat ≤
      (walkHops db relationMask sizes max.toNat maxHops.toNat 0 [seed] ⟨[seed], [], []⟩).length := by omega
  obtain ⟨found, hout, hexplored⟩ := (hstart.hops hfit hbound maxHops.toNat (Nat.zero_add _)).resolve_left hnotfull
  obtain ⟨hseed, hnodup⟩ := List.nodup_cons.1 hexplored.nodup
  refine ⟨found.map Prod.fst, hnodup, fun x => ?_, hout⟩
  rw [← hexplored.mem_iff, List.map_cons, List.mem_cons]
  constructor
  · intro hx
    exact ⟨fun heq => hseed (heq ▸ hx), .inr hx⟩
  · rintro ⟨hne, hx⟩
    exact hx.resolve_left hne

/-! ## A triangle, an edge without a relation, a long seed -/

/-- A database that lists the edges in their order. -/
def edgeDbOf (edges : List EntityEdge) : EdgeDb where
  edges := edges
  walkStepTyped node cap := (edges.filter (·.At node)).take cap
  walkStepTyped_eq _ _ := ⟨_, .refl _, rfl⟩

/-- A node that is found is the seed or the end of an edge. -/
theorem nodes_encard_le (edges : List EntityEdge) (seed : Text) (n : ℕ) :
    {x | (edgeGraph edges).edist seed x ≤ n}.encard ≤ (2 * edges.length + 1 : ℕ) := by
  have hsub : {x | (edgeGraph edges).edist seed x ≤ n} ⊆
      ((seed :: (edges.map (·.source) ++ edges.map (·.target))).toFinset : Set Text) := by
    intro x hx
    obtain ⟨k, -, hk⟩ := exists_edist_eq hx
    rw [List.coe_toFinset]
    cases k with
    | zero =>
      have hseed := SimpleGraph.edist_eq_zero_iff.1 hk
      exact hseed ▸ List.mem_cons_self
    | succ k =>
      obtain ⟨y, -, -, e, he, hjoins⟩ := exists_adj_of_edist hk
      refine List.mem_cons_of_mem _ (List.mem_append.2 ?_)
      rcases hjoins with ⟨-, htarget⟩ | ⟨hsource, -⟩
      · exact .inr (List.mem_map.2 ⟨e, he, htarget⟩)
      · exact .inl (List.mem_map.2 ⟨e, he, hsource⟩)
  refine (Set.encard_le_encard hsub).trans ?_
  rw [Set.encard_coe_eq_coe_finsetCard, Nat.cast_le]
  refine (List.toFinset_card_le _).trans ?_
  simp only [List.length_cons, List.length_append, List.length_map]
  omega

/-- With 50 edges or fewer the bounds are kept. -/
theorem bounded_edgeDbOf {edges sub : List EntityEdge} (h : edges.length ≤ 50) (hsub : sub.length ≤ edges.length)
    (seed : Text) (maxHops : ℤ) : Bounded (edgeDbOf edges) sub seed maxHops where
  edges_le _ := (List.length_filter_le _ _).trans h
  nodes_le := by
    refine (nodes_encard_le sub seed _).trans ?_
    rw [show (256 : ℕ∞) = (256 : ℕ) from rfl, Nat.cast_le]
    omega

/-- Where the seed has a neighbour, a search has an entry. -/
theorem not_breadthFirst_nil {edges : List EntityEdge} {x : Text} (hadj : (edgeGraph edges).Adj seed x)
    (hhops : 0 < maxHops) : ¬ BreadthFirst edges sizes seed maxHops [] := by
  rintro ⟨nodes, -, hnodes, hout⟩
  cases hout
  refine List.not_mem_nil ((hnodes x).2 ⟨hadj.ne', ?_⟩)
  rw [SimpleGraph.edist_eq_one_iff_adj.2 hadj, ← Nat.cast_one, Nat.cast_le]
  omega

end

def fieldSizes : EntrySizes := ⟨256, 128, 256⟩

def callEdge (source relation target : Text) : EntityEdge := ⟨source, relation, target, 5, 1, 1, 1⟩

/-- Three functions that call one another, the first one also itself. -/
def triangle : List EntityEdge :=
  [callEdge (text "a") (text "calls") (text "a"), callEdge (text "a") (text "calls") (text "b"),
    callEdge (text "c") (text "calls") (text "a"), callEdge (text "b") (text "calls") (text "c")]

theorem triangle_searched :
    BreadthFirst ((edgeDbOf triangle).usable 32) fieldSizes (text "a") 2
      (memoryGraphWalk (edgeDbOf triangle) fieldSizes (some (text "a")) 32 2 16) :=
  memoryGraphWalk_breadthFirst ⟨by decide +kernel, by decide +kernel, by decide +kernel⟩
    (bounded_edgeDbOf (by decide) ((List.length_filter_le _ _).trans (List.length_filter_le _ _)) _ _) (by decide +kernel)

/-- An edge without a relation text, and one whose source has 256 bytes. -/
def unlabelled : EntityEdge := callEdge (text "a") [] (text "b")

def longNamed : EntityEdge := callEdge (List.replicate 256 97) (text "calls") (text "b")

/-- **Nothing is found** from a seed with a neighbour along an edge that passes the mask. -/
theorem memoryGraphWalk_passedOver :
    (Bounded (edgeDbOf [unlabelled]) ((edgeDbOf [unlabelled]).passing relationMaskAll) unlabelled.source 2 ∧
      memoryGraphWalk (edgeDbOf [unlabelled]) fieldSizes (some unlabelled.source) relationMaskAll 2 16 = [] ∧
      ¬ BreadthFirst ((edgeDbOf [unlabelled]).passing relationMaskAll) fieldSizes unlabelled.source 2 []) ∧
    Bounded (edgeDbOf [longNamed]) ((edgeDbOf [longNamed]).passing relationMaskAll) longNamed.source 2 ∧
      memoryGraphWalk (edgeDbOf [longNamed]) fieldSizes (some longNamed.source) relationMaskAll 2 16 = [] ∧
      ¬ BreadthFirst ((edgeDbOf [longNamed]).passing relationMaskAll) fieldSizes longNamed.source 2 [] := by
  refine ⟨⟨?_, by decide +kernel, ?_⟩, ?_, by decide +kernel, ?_⟩
  · exact bounded_edgeDbOf (by decide) (List.length_filter_le _ _) _ _
  · refine not_breadthFirst_nil ⟨by decide +kernel, unlabelled, by decide +kernel, .inl ⟨rfl, rfl⟩⟩ ?_
    decide
  · exact bounded_edgeDbOf (by decide) (List.length_filter_le _ _) _ _
  · refine not_breadthFirst_nil ⟨by decide +kernel, longNamed, by decide +kernel, .inl ⟨rfl, rfl⟩⟩ ?_
    decide

end AimeeMemory.Graph
