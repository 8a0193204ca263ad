import RemoteTable.Proofs.Filter.Combination
import RemoteTable.Proofs.Table.Filters

/-!
# Qualifying names

A name is qualified once: what a table makes of it is a wire name, and a wire name is one for every
table (`qualify_qualify`). A chain is qualified place by place, so the laws of names are laws of
chains: qualifying is idempotent, no other table changes its result, and it goes through
combinations. Accessors that know their table qualify when a chain is built, the others leave it to
the table, and both ways lead to the same chain (`Table.names_qualified_once`).
-/

namespace RemoteTable

/-! ## Names -/

/-- The names that come to stand behind the name of the table are those that are no wire names. -/
theorem qualify_eq_append_iff (table name : String) :
    qualify table name = table ++ "." ++ name ↔ ¬ IsWireName name := by
  constructor
  · intro h hname
    rw [qualify_of_isWireName table hname] at h
    have hlength := congrArg String.length h
    rw [String.length_append, String.length_append] at hlength
    have hdot : ".".length = 1 := rfl
    omega
  · exact fun h => if_neg fun hname => h ((isQualified_iff name).mp hname)

/-- A table leaves wire names alone, and no other names. -/
theorem qualify_eq_self_iff (table name : String) : qualify table name = name ↔ IsWireName name := by
  constructor
  · intro h
    rw [← h]
    exact isWireName_qualify table name
  · exact qualify_of_isWireName table

/-- What a table has made of a name is not changed by any table. -/
theorem qualify_qualify (table other name : String) :
    qualify other (qualify table name) = qualify table name :=
  qualify_of_isWireName other (isWireName_qualify table name)

/-! ## Chains -/

theorem ChainItem.qualify_qualify (table other : String) (item : ChainItem) :
    (item.qualify table).qualify other = item.qualify table := by
  cases item with
  | filter f =>
    show filter _ = filter _
    rw [RemoteTable.qualify_qualify]
  | join j => rfl

namespace FilterChain

/-- A chain that was qualified for one table stays so for any other one. -/
theorem qualify_qualify (table other : String) (c : FilterChain) :
    (c.qualify table).qualify other = c.qualify table := by
  apply items_injective
  rw [items_qualify, items_qualify, List.map_map]
  exact List.map_congr_left fun item _ => item.qualify_qualify table other

/-- Qualifying goes over both parts of a combination. -/
theorem qualify_combine (table : String) (a : FilterChain) (j : Join) (b : FilterChain) :
    (a.combine j b).qualify table = (a.qualify table).combine j (b.qualify table) := by
  apply items_injective
  rw [items_qualify, items_combine, items_combine, items_qualify, items_qualify, List.map_append,
    List.map_cons]
  rfl

theorem filters_qualify (table : String) (c : FilterChain) :
    (c.qualify table).filters =
      c.filters.map fun f => { f with field := RemoteTable.qualify table f.field } := by
  simp [qualify, mapFilters, filters]

/-- The filters of a chain stand at places of it. -/
theorem mem_filters_of_mem_items {c : FilterChain} {f : Filter} (h : .filter f ∈ c.items) :
    f ∈ c.filters := by
  obtain ⟨first, rest⟩ := c
  simpa [items, filters] using h

/-- A table leaves the chains with wire names only alone, and no other chains. -/
theorem qualify_eq_self_iff (table : String) (c : FilterChain) :
    c.qualify table = c ↔ ∀ f ∈ c.filters, IsWireName f.field := by
  constructor
  · intro h f hf
    rw [← h, filters_qualify] at hf
    obtain ⟨g, -, rfl⟩ := List.mem_map.mp hf
    exact isWireName_qualify table g.field
  · intro h
    apply items_injective
    rw [items_qualify]
    refine (List.map_congr_left fun item hitem => ?_).trans (List.map_id c.items)
    cases item with
    | filter f =>
      show ChainItem.filter { f with field := RemoteTable.qualify table f.field } = .filter f
      rw [qualify_of_isWireName table (h f (mem_filters_of_mem_items hitem))]
    | join j => rfl

end FilterChain

/-! ## Accessors -/

/-- The comparisons that an accessor makes. -/
inductive Comparison where
  /-- The field equals the operand. -/
  | equal
  /-- The field is above the operand. -/
  | greater
  /-- The field is below the operand. -/
  | less
  /-- The field is one of the operand's elements. -/
  | oneOf
  /-- The field contains one of the operand's values. -/
  | has
  /-- The field is a list that holds the operand. -/
  | holds

/-- The filter that an accessor makes by a comparison. -/
def Field.filter (f : Field) : Comparison → Datum → Filter
  | .equal => f.equal
  | .greater => f.greater
  | .less => f.less
  | .oneOf => f.oneOf
  | .has => f.has
  | .holds => f.holds

/-- How chains are made with accessors. -/
inductive AccessorExpression where
  /-- An accessor compares its field with an operand. -/
  | compared (name : String) (comparison : Comparison) (operand : Datum)
  /-- A chain is taken from elsewhere. -/
  | given (c : FilterChain)
  /-- Two parts are combined. -/
  | joined (left : AccessorExpression) (j : Join) (right : AccessorExpression)

namespace AccessorExpression

/-- The chain that is made with certain accessors. -/
def chain (accessor : String → Field) : AccessorExpression → FilterChain
  | compared name comparison operand => .single ((accessor name).filter comparison operand)
  | given c => c
  | joined left j right => (left.chain accessor).combine j (right.chain accessor)

/-- Accessors whose names come to the same wire names make chains that do. -/
theorem qualify_chain_congr {table : String} {accessor accessor' : String → Field}
    (h : ∀ name, qualify table (accessor name).wireName = qualify table (accessor' name).wireName)
    (e : AccessorExpression) :
    (e.chain accessor).qualify table = (e.chain accessor').qualify table := by
  induction e with
  | compared name comparison operand =>
    apply FilterChain.items_injective
    show [ChainItem.filter _] = [ChainItem.filter _]
    -- a comparison takes nothing from the accessor but the name
    cases comparison <;> exact congrArg (fun field => [ChainItem.filter ⟨field, _, _⟩]) (h name)
  | given c => rfl
  | joined left j right ihleft ihright =>
    show (FilterChain.combine _ j _).qualify table = (FilterChain.combine _ j _).qualify table
    rw [FilterChain.qualify_combine, FilterChain.qualify_combine, ihleft, ihright]

end AccessorExpression

namespace Table

/-- Names are qualified once, and nothing else is changed:

* a table and an accessor bound to it make the same of every name: a name that has a point or begins
  with `#` is kept, and any other one stands behind the name of the table and a point;
* in a chain every field gets this name, and joins, operators and operands are kept;
* the chains that a table leaves alone are those with wire names only, so a chain that was qualified
  is not changed by the same table or by any other one;
* a combination is qualified by qualifying its parts;
* a chain made with accessors bound to the table is qualified to the same chain as one made with
  accessors that are not. -/
theorem names_qualified_once (t : Table) :
    (∀ name, (t.fieldOf name).wireName = t.field name ∧ IsWireName (t.field name) ∧
      (t.field name = name ↔ IsWireName name) ∧
      (t.field name = t.name ++ "." ++ name ↔ ¬ IsWireName name)) ∧
    (∀ c, (t.formatFilters c).items = c.items.map (ChainItem.qualify t.name)) ∧
    (∀ c, t.formatFilters c = c ↔ ∀ f ∈ c.filters, IsWireName f.field) ∧
    (∀ c, t.formatFilters (t.formatFilters c) = t.formatFilters c) ∧
    (∀ (other : Table) c, other.formatFilters (t.formatFilters c) = t.formatFilters c) ∧
    (∀ a j b, t.formatFilters (a.combine j b) = (t.formatFilters a).combine j (t.formatFilters b)) ∧
    ∀ e : AccessorExpression,
      t.formatFilters (e.chain t.fieldOf) = t.formatFilters (e.chain Field.ofName) := by
  have hformat : ∀ (u : Table) c, u.formatFilters c = c.qualify u.name := fun _ _ => rfl
  simp only [hformat]
  refine ⟨fun name => ⟨rfl, isWireName_qualify t.name name, qualify_eq_self_iff t.name name,
    qualify_eq_append_iff t.name name⟩, FilterChain.items_qualify t.name,
    FilterChain.qualify_eq_self_iff t.name, FilterChain.qualify_qualify t.name t.name,
    fun other => FilterChain.qualify_qualify t.name other.name,
    FilterChain.qualify_combine t.name, fun e => e.qualify_chain_congr fun name => ?_⟩
  -- the bound accessor has qualified the name that the table is given by the other one
  exact qualify_qualify t.name t.name name

/-- A chain with a short name and a system field, which the table of shots qualifies and that of assets
then leaves alone: it is the chain that accessors of the table of shots make. -/
theorem shots_names_qualified_once :
    let table (name : String) : Table := ⟨name, ⟨"db", ⟨none, none⟩⟩, none⟩
    let e : AccessorExpression := .joined (.compared "step" .equal (.string "comp")) .or
      (.compared "#id" .oneOf (.string "7"))
    (table "asset").formatFilters ((table "shot").formatFilters (e.chain Field.ofName)) =
      e.chain (table "shot").fieldOf := by
  intro table e
  obtain ⟨-, -, hkept, -, hother, -, haccessors⟩ := names_qualified_once (table "shot")
  have hnames : ∀ f ∈ (e.chain (table "shot").fieldOf).filters, IsWireName f.field := by
    intro f hf
    rcases List.mem_cons.mp hf with rfl | hf
    · exact .inl (by decide)
    · rw [List.mem_singleton.mp hf]
      exact .inr (by decide)
  rw [hother, ← haccessors, (hkept _).mpr hnames]

end Table

end RemoteTable
