import FieldGraph.Proofs.Graph.Valid

/-! # Walks find every path

A walk along the connections of a valid graph that ends without meeting its target has
entered every node that can be reached, so there is no path to the target. The
connection that `canConnect` allows therefore closes no cycle, and `link` keeps the
graph valid. A walk that meets its target has followed a path.
-/

namespace FieldGraph.Graph

open List Option Relation Table

variable {graph : Graph} {node : Node} {port : Port} {target start : Int} {α : Type}
  {connection : Connection} {extended old : α → α → Prop}

theorem mem_ports {items : List α} (numbered : port.node = node.id)
    (inside : (atPlace? items port.index).isSome = true) :
    port ∈ (List.range items.length).map fun (index : Nat) => (⟨node.id, index⟩ : Port) := by
  obtain ⟨nonnegative, bounded⟩ := isSome_atPlace?_iff.mp inside
  refine mem_map.mpr ⟨port.index.toNat, mem_range.mpr (by omega), ?_⟩
  rw [Int.toNat_of_nonneg nonnegative, ← numbered]

theorem Valid.mem_targets (valid : graph.Valid) (found : graph.node? node.id = some node)
    (feeds : graph.Feeds node.id target) : target ∈ graph.targets node := by
  obtain ⟨connection, mem, starts, rfl⟩ := feeds
  obtain ⟨source, present, inside⟩ := hasOutput_iff.mp (valid.source_exists connection mem)
  rw [starts, found, some.injEq] at present
  subst present
  refine mem_flatMap.mpr ⟨connection.source, mem_ports starts inside, ?_⟩
  rw [valid.outgoing_eq]
  exact mem_map.mpr ⟨connection, mem_filter.mpr ⟨mem, beq_self_eq_true _⟩, rfl⟩

theorem no_path_of_closed (closed : Int → Prop) (avoids : ∀ id, closed id → id ≠ target)
    (feeding : ∀ id other, closed id → graph.Feeds id other → closed other)
    (inside : closed start) : ¬ ReflTransGen graph.Feeds start target := by
  have reached {last : Int} (path : ReflTransGen graph.Feeds start last) :
      closed last := by
    induction path with
    | refl => exact inside
    | tail _ feeds ih => exact feeding _ _ ih feeds
  exact fun path => avoids target (reached path) rfl

section

variable (valid : graph.Valid)

include valid

/-- A walk that does not meet its target leaves no path to it. The nodes outside
`unvisited` were entered before: they are not the target, and what they feed was
entered too or is still ahead. -/
theorem Valid.no_path_of_reaches (unvisited frontier : List Int)
    (fails : graph.reaches target unvisited frontier = false) (nodup : unvisited.Nodup)
    (nodes : ∀ id ∈ unvisited, graph.hasNode id = true)
    (avoids : ∀ id, id ∉ unvisited → id ≠ target)
    (feeding : ∀ id other, id ∉ unvisited → graph.Feeds id other →
      other ∈ frontier ∨ other ∉ unvisited) :
    ∀ start, start ∈ frontier ∨ start ∉ unvisited →
      ¬ ReflTransGen graph.Feeds start target := by
  fun_induction reaches graph target unvisited frontier with
  | case1 unvisited =>
    intro start inside
    refine no_path_of_closed (fun id => id ∉ unvisited) avoids ?_ (inside.resolve_left not_mem_nil)
    intro id other entered feeds
    exact (feeding id other entered feeds).resolve_left not_mem_nil
  | case2 => cases fails
  | case3 unvisited id rest different fresh next ih =>
    intro start inside
    have entered (other : Int) (gone : other ∉ unvisited.erase id) :
        other ∉ unvisited ∨ other = id := by
      by_cases same : other = id
      · exact .inr same
      · exact .inl fun present => gone ((mem_erase_of_ne same).mpr present)
    have advances (other : Int) (inside : other ∈ id :: rest ∨ other ∉ unvisited) :
        other ∈ next ++ rest ∨ other ∉ unvisited.erase id := by
      rcases inside with ahead | before
      · rcases mem_cons.mp ahead with rfl | later
        · exact .inr nodup.not_mem_erase
        · exact .inl (mem_append_right _ later)
      · exact .inr fun present => before (mem_of_mem_erase present)
    refine ih fails (nodup.erase id) ?_ ?_ ?_ start (advances start inside)
    · intro other present
      exact nodes other (mem_of_mem_erase present)
    · intro other gone
      rcases entered other gone with before | rfl
      · exact avoids other before
      · exact different
    · intro source other gone feeds
      rcases entered source gone with before | rfl
      · exact advances other (feeding source other before feeds)
      · left
        refine mem_append_left _ ?_
        obtain ⟨node, found⟩ := isSome_iff_exists.mp (nodes source fresh)
        obtain ⟨_, rfl⟩ := mem_of_node? found
        simp only [next, found]
        exact valid.mem_targets found feeds
  | case4 unvisited id rest different visited ih =>
    intro start inside
    have advances (other : Int) (inside : other ∈ id :: rest ∨ other ∉ unvisited) :
        other ∈ rest ∨ other ∉ unvisited := by
      rcases inside with ahead | gone
      · rcases mem_cons.mp ahead with rfl | later
        · exact .inr visited
        · exact .inl later
      · exact .inr gone
    refine ih fails nodup nodes avoids (fun source other before feeds => ?_) start
      (advances start inside)
    exact advances other (feeding source other before feeds)

theorem Valid.no_path_of_hasPath (exists_target : graph.hasNode target = true)
    (fails : graph.hasPath start target = false) : ¬ ReflTransGen graph.Feeds start target := by
  refine valid.no_path_of_reaches graph.nodeIds [start] fails valid.nodeIds_nodup ?_ ?_ ?_
    start (.inl (mem_singleton.mpr rfl))
  · intro id mem
    exact hasNode_iff.mpr mem
  · rintro id outside rfl
    exact outside (hasNode_iff.mp exists_target)
  · rintro id other outside ⟨connection, mem, rfl, _⟩
    exact (outside (valid.source_mem mem)).elim

theorem Valid.feeds_of_mem_targets (mem : target ∈ graph.targets node) :
    graph.Feeds node.id target := by
  obtain ⟨port, listed, fed⟩ := mem_flatMap.mp mem
  obtain ⟨connection, recorded, rfl⟩ := mem_map.mp fed
  rw [valid.outgoing_eq] at recorded
  obtain ⟨present, starts⟩ := mem_filter.mp recorded
  obtain ⟨index, -, rfl⟩ := mem_map.mp listed
  exact ⟨connection, present, by rw [eq_of_beq starts], rfl⟩

theorem Valid.path_of_reaches (unvisited frontier : List Int)
    (meets : graph.reaches target unvisited frontier = true) :
    ∃ start ∈ frontier, ReflTransGen graph.Feeds start target := by
  fun_induction reaches graph target unvisited frontier with
  | case1 => cases meets
  | case2 => exact ⟨_, mem_cons_self, .refl⟩
  | case3 unvisited id rest different fresh next ih =>
    obtain ⟨start, ahead, path⟩ := ih meets
    rcases mem_append.mp ahead with fed | later
    · refine ⟨id, mem_cons_self, path.head ?_⟩
      cases found : graph.node? id with
      | none =>
        simp only [next, found] at fed
        cases fed
      | some node =>
        simp only [next, found] at fed
        obtain ⟨-, rfl⟩ := mem_of_node? found
        exact valid.feeds_of_mem_targets fed
    · exact ⟨start, mem_cons_of_mem _ later, path⟩
  | case4 unvisited id rest different visited ih =>
    obtain ⟨start, ahead, path⟩ := ih meets
    exact ⟨start, mem_cons_of_mem _ ahead, path⟩

theorem Valid.path_of_hasPath (found : graph.hasPath start target = true) :
    ReflTransGen graph.Feeds start target := by
  obtain ⟨first, only, path⟩ := valid.path_of_reaches _ _ found
  rwa [mem_singleton.mp only] at path

theorem Valid.hasPath_iff :
    graph.hasPath start target = true ↔ ReflTransGen graph.Feeds start target := by
  refine ⟨valid.path_of_hasPath, fun path => ?_⟩
  rw [← Bool.not_eq_false]
  intro missed
  rcases path.cases_tail with rfl | ⟨last, -, connection, mem, -, rfl⟩
  · simp [hasPath, reaches] at missed
  · obtain ⟨node, found, -⟩ := hasInput_iff.mp (valid.target_exists connection mem)
    refine valid.no_path_of_hasPath ?_ missed path
    rw [hasNode, found]
    rfl

end

/-! ## Adding a connection -/

theorem path_of_extended {a b : α} (edges : ∀ x y, extended x y → old x y ∨ x = a ∧ y = b) {x y : α}
    (path : ReflTransGen extended x y) : ReflTransGen old x y ∨
    ReflTransGen old x a ∧ ReflTransGen old b y := by
  induction path with
  | refl => exact .inl .refl
  | tail _ edge ih =>
    rcases edges _ _ edge with before | ⟨rfl, rfl⟩
    · rcases ih with without | ⟨toStart, fromEnd⟩
      · exact .inl (without.tail before)
      · exact .inr ⟨toStart, fromEnd.tail before⟩
    · rcases ih with without | ⟨toStart, _⟩
      · exact .inr ⟨without, .refl⟩
      · exact .inr ⟨toStart, .refl⟩

theorem acyclic_of_extended {a b : α} (acyclic : ∀ x, ¬ TransGen old x x)
    (edges : ∀ x y, extended x y → old x y ∨ x = a ∧ y = b)
    (open_ : ¬ ReflTransGen old b a) (x : α) : ¬ TransGen extended x x := by
  intro cycle
  obtain ⟨y, first, back⟩ := TransGen.head'_iff.mp cycle
  rcases edges x y first with before | ⟨rfl, rfl⟩
  · rcases path_of_extended edges back with without | ⟨toStart, fromEnd⟩
    · exact acyclic x (TransGen.head' before without)
    · exact open_ (fromEnd.trans (toStart.head before))
  · rcases path_of_extended edges back with without | ⟨toStart, _⟩
    · exact open_ without
    · exact open_ toStart

theorem canConnect_iff : graph.canConnect connection = true ↔
    graph.hasOutput connection.source = true ∧ graph.hasInput connection.target = true ∧
      connection.source.node ≠ connection.target.node ∧
      graph.incoming? connection.target = none ∧
      graph.hasPath connection.target.node connection.source.node = false := by
  simp only [canConnect, Table.contains, Bool.and_eq_true, bne_iff_ne, Bool.not_eq_true',
    isSome_eq_false_iff, isNone_iff_eq_none]
  tauto

theorem Valid.incoming?_eq_none_iff (valid : graph.Valid) :
    graph.incoming? port = none ↔ ∀ connection ∈ graph.connections, connection.target ≠ port := by
  constructor
  · intro free connection mem ends
    rw [(valid.incoming_iff port connection).mpr ⟨mem, ends⟩] at free
    cases free
  · intro vacant
    cases recorded : graph.incoming? port with
    | none => rfl
    | some connection =>
      obtain ⟨mem, ends⟩ := (valid.incoming_iff port connection).mp recorded
      exact (vacant connection mem ends).elim

theorem Valid.link (valid : graph.Valid) (possible : graph.canConnect connection = true) :
    (graph.link connection).Valid := by
  obtain ⟨source, target, differ, free, open_⟩ := canConnect_iff.mp possible
  have vacant := valid.incoming?_eq_none_iff.mp free
  have mem_link (other : Connection) : other ∈ (graph.link connection).connections ↔
      other ∈ graph.connections ∨ other = connection := by
    simp [Graph.link]
  have extend {p : Connection → Prop} (old : ∀ other ∈ graph.connections, p other)
      (new : p connection) : ∀ other ∈ (graph.link connection).connections, p other := by
    intro other mem
    rcases (mem_link other).mp mem with before | rfl
    · exact old other before
    · exact new
  constructor
  · refine nodup_append.mpr ⟨valid.nodup, by simp, ?_⟩
    intro other mem new present same
    rw [mem_singleton.mp present] at same
    exact vacant other mem (by rw [same])
  · intro place other
    rw [mem_link]
    change (graph.incoming.insert connection.target connection).get? place = some other ↔ _
    by_cases same : place = connection.target
    · subst same
      rw [get?_insert_self, some.injEq]
      refine ⟨fun equal => ⟨.inr equal.symm, by rw [← equal]⟩, ?_⟩
      rintro ⟨mem | rfl, ends⟩
      · exact (vacant other mem ends).elim
      · rfl
    · rw [get?_insert_of_ne _ _ same]
      have recorded := valid.incoming_iff place other
      rw [incoming?] at recorded
      rw [recorded]
      refine ⟨fun before => ⟨.inl before.1, before.2⟩, ?_⟩
      rintro ⟨mem | rfl, ends⟩
      · exact ⟨mem, ends⟩
      · exact (same ends.symm).elim
  · intro place
    have recorded := valid.outgoing_eq place
    by_cases same : place = connection.source
    · subst same
      simp only [Graph.link, outgoingFrom] at recorded ⊢
      rw [recorded]
      simp
    · have apart : (connection.source == place) = false :=
        beq_false_of_ne fun equal => same equal.symm
      simp only [Graph.link, outgoingFrom, get?_insert_of_ne _ _ same] at recorded ⊢
      rw [recorded]
      simp [apart]
  · intro place
    by_cases same : place = connection.source
    · subst same
      simp [Graph.link]
    · simp only [Graph.link, get?_insert_of_ne _ _ same]
      exact valid.outgoing_ne_nil place
  · exact extend valid.source_exists source
  · exact extend valid.target_exists target
  · exact extend valid.ends_differ differ
  · refine acyclic_of_extended valid.acyclic (a := connection.source.node)
      (b := connection.target.node) ?_ (valid.no_path_of_hasPath ?_ open_)
    · rintro first second ⟨other, mem, rfl, rfl⟩
      rcases (mem_link other).mp mem with before | rfl
      · exact .inl ⟨other, before, rfl, rfl⟩
      · exact .inr ⟨rfl, rfl⟩
    · obtain ⟨node, found, _⟩ := hasOutput_iff.mp source
      rw [hasNode, found]
      rfl
  · exact valid.ascending
  · exact valid.below_next

end FieldGraph.Graph
