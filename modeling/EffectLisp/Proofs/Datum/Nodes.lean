import EffectLisp.Proofs.Datum.Writable

/-!
# Where writing a value fails

The nodes of a value are visited in order, a list before its items, each with the number
of lists around it.  A node is refused for itself: a function, a symbol with an unreadable
name, or a list at the nesting limit, whatever its items are.  A value is shown if and
only if none of its nodes is refused, and else the fault is that of the first one which
is.
-/

namespace EffectLisp.Datum

/-- A value inside so many lists. -/
structure Node where
  depth : Nat
  value : Value

mutual

/-- The nodes of a value inside so many lists: a list stands before its items. -/
def nodes (depth : Nat) : Value → List Node
  | .list items => ⟨depth, .list items⟩ :: nodesOf (depth + 1) items
  | v => [⟨depth, v⟩]

def nodesOf (depth : Nat) : List Value → List Node
  | [] => []
  | item :: items => nodes depth item ++ nodesOf depth items

end

/-- The node is refused for itself, and with what fault. -/
inductive RefusedFor : Node → Fault → Prop where
  | callable (depth : Nat) (c : Callable Value) :
      RefusedFor ⟨depth, .callable c⟩ (.typeMismatch .serializable (.callable c))
  | symbol (depth : Nat) {name : String} :
      isReadableSymbol name = false →
      RefusedFor ⟨depth, .symbol name⟩ (.typeMismatch .readableSymbol (.symbol name))
  | list {depth : Nat} (items : List Value) :
      nestingLimit ≤ depth →
      RefusedFor ⟨depth, .list items⟩ (.recursionLimit nestingLimit)

def Node.Refused (node : Node) : Prop :=
  ∃ f, RefusedFor node f

/-- The first of the nodes to be refused is refused with the fault. -/
def FirstRefused (nodes : List Node) (f : Fault) : Prop :=
  ∃ before node after,
    nodes = before ++ node :: after ∧ (∀ other ∈ before, ¬other.Refused) ∧ RefusedFor node f

section Refused

theorem refused_symbol_iff {depth : Nat} {name : String} :
    Node.Refused ⟨depth, .symbol name⟩ ↔ isReadableSymbol name = false := by
  constructor
  · rintro ⟨_, refused⟩
    cases refused with
    | symbol _ unreadable => exact unreadable
  · intro unreadable
    exact ⟨_, .symbol depth unreadable⟩

theorem refused_list_iff {depth : Nat} {items : List Value} :
    Node.Refused ⟨depth, .list items⟩ ↔ nestingLimit ≤ depth := by
  constructor
  · rintro ⟨_, refused⟩
    cases refused with
    | list _ tooDeep => exact tooDeep
  · intro tooDeep
    exact ⟨_, .list items tooDeep⟩

end Refused

namespace FirstRefused

variable {node : Node} {front back : List Node} {f : Fault}

theorem not_nil : ¬FirstRefused [] f := by
  rintro ⟨before, node, after, whole, -, -⟩
  simp at whole

theorem head (refused : RefusedFor node f) (nodes : List Node) :
    FirstRefused (node :: nodes) f :=
  ⟨[], node, nodes, rfl, by simp, refused⟩

/-- The first node to be refused is the one in front, or it is among the others. -/
theorem cons_cases (first : FirstRefused (node :: back) f) :
    RefusedFor node f ∨ ¬node.Refused ∧ FirstRefused back f := by
  obtain ⟨before, other, after, whole, accepted, refused⟩ := first
  cases before with
  | nil =>
      obtain ⟨rfl, -⟩ := List.cons.inj whole
      exact .inl refused
  | cons own before =>
      obtain ⟨rfl, rfl⟩ := List.cons.inj whole
      obtain ⟨here, others⟩ := List.forall_mem_cons.mp accepted
      exact .inr ⟨here, before, other, after, rfl, others, refused⟩

theorem tail (accepted : ¬node.Refused) (first : FirstRefused back f) :
    FirstRefused (node :: back) f := by
  obtain ⟨before, other, after, rfl, others, refused⟩ := first
  exact ⟨node :: before, other, after, rfl, List.forall_mem_cons.mpr ⟨accepted, others⟩,
    refused⟩

theorem append_cases (first : FirstRefused (front ++ back) f) :
    FirstRefused front f ∨ (∀ node ∈ front, ¬node.Refused) ∧ FirstRefused back f := by
  induction front with
  | nil => exact .inr ⟨by simp, first⟩
  | cons node front induction =>
      rcases first.cons_cases with here | ⟨accepted, later⟩
      · exact .inl (.head here front)
      · rcases induction later with within | ⟨others, after⟩
        · exact .inl (.tail accepted within)
        · exact .inr ⟨List.forall_mem_cons.mpr ⟨accepted, others⟩, after⟩

/-- If some nodes are refused, one is the first. -/
theorem exists_of_refused
    {nodes : List Node} (refused : ¬∀ node ∈ nodes, ¬node.Refused) :
    ∃ f, FirstRefused nodes f := by
  induction nodes with
  | nil => simp at refused
  | cons node nodes induction =>
      by_cases here : node.Refused
      · obtain ⟨f, because⟩ := here
        exact ⟨f, .head because nodes⟩
      · have later : ¬∀ node ∈ nodes, ¬node.Refused := by
          intro others
          exact refused (List.forall_mem_cons.mpr ⟨here, others⟩)
        obtain ⟨f, first⟩ := induction later
        exact ⟨f, first.tail here⟩

end FirstRefused

mutual

/-- A value can be written if and only if no node of it is refused. -/
theorem writable_iff_nodes {depth : Nat} {v : Value} :
    Writable depth v ↔ ∀ node ∈ nodes depth v, ¬node.Refused := by
  cases v with
  | symbol name =>
      change _ ↔ ∀ node ∈ [Node.mk depth (.symbol name)], ¬node.Refused
      rw [List.forall_mem_singleton, refused_symbol_iff, Bool.not_eq_false]
      constructor
      · intro writable
        cases writable with
        | symbol _ readable => exact readable
      · exact .symbol depth
  | list items =>
      rw [nodes, List.forall_mem_cons, refused_list_iff, ← forall_writable_iff_nodes]
      constructor
      · intro writable
        cases writable with
        | list below each => exact ⟨by omega, each⟩
      · rintro ⟨below, each⟩
        exact .list (by omega) each
  | callable c =>
      constructor
      · intro writable
        cases writable
      · intro accepted
        have refused : Node.Refused ⟨depth, .callable c⟩ := ⟨_, .callable depth c⟩
        exact absurd refused (accepted _ (List.mem_singleton_self _))
  | _ =>
      constructor
      · intro _ node member
        cases List.mem_singleton.mp member
        rintro ⟨_, refused⟩
        cases refused
      · intro _
        constructor

theorem forall_writable_iff_nodes {depth : Nat} {items : List Value} :
    (∀ item ∈ items, Writable depth item) ↔ ∀ node ∈ nodesOf depth items, ¬node.Refused := by
  cases items with
  | nil => simp [nodesOf]
  | cons item items =>
      rw [nodesOf, List.forall_mem_cons, List.forall_mem_append, writable_iff_nodes,
        forall_writable_iff_nodes]

end

mutual

/-- Writing a value fails with the fault of its first node to be refused. -/
theorem FirstRefused.write_eq
    {depth : Nat} {v : Value} {f : Fault} (first : FirstRefused (nodes depth v) f) :
    write depth v = .error f := by
  cases v with
  | list items =>
      rw [nodes] at first
      rw [write]
      rcases first.cons_cases with here | ⟨accepted, within⟩
      · cases here with
        | list _ tooDeep => rw [if_pos tooDeep]
      · rw [refused_list_iff] at accepted
        rw [if_neg accepted, within.writeItems_eq]
        rfl
  | symbol name =>
      rcases first.cons_cases with here | ⟨-, none⟩
      · cases here with
        | symbol _ unreadable => simp [write, unreadable]
      · exact absurd none not_nil
  | callable c =>
      rcases first.cons_cases with here | ⟨-, none⟩
      · cases here
        rfl
      · exact absurd none not_nil
  | _ =>
      rcases first.cons_cases with here | ⟨-, none⟩
      · cases here
      · exact absurd none not_nil

theorem FirstRefused.writeItems_eq
    {depth : Nat} {items : List Value} {f : Fault}
    (first : FirstRefused (nodesOf depth items) f) : writeItems depth items = .error f := by
  match items with
  | [] => exact absurd first not_nil
  | [item] =>
      rw [nodesOf] at first
      rcases first.append_cases with within | ⟨-, none⟩
      · rw [writeItems, within.write_eq]
        rfl
      · exact absurd none not_nil
  | item :: other :: items =>
      rw [nodesOf] at first
      rcases first.append_cases with within | ⟨accepted, later⟩
      · rw [writeItems, within.write_eq]
        rfl
      · obtain ⟨text, written⟩ := (writable_iff_nodes.mpr accepted).exists_write
        rw [writeItems, written, later.writeItems_eq]
        rfl

end

mutual

/-- Nothing that can be written holds a function. -/
theorem Writable.isSerializable
    {depth : Nat} {v : Value} (writable : Writable depth v) : v.isSerializable = true := by
  cases v with
  | list items =>
      cases writable with
      | list _ each => exact areSerializable_of_writable each
  | callable c => cases writable
  | _ => rfl

theorem areSerializable_of_writable
    {depth : Nat} {items : List Value} (each : ∀ item ∈ items, Writable depth item) :
    Value.areSerializable items = true := by
  cases items with
  | nil => rfl
  | cons item items =>
      obtain ⟨first, others⟩ := List.forall_mem_cons.mp each
      rw [Value.areSerializable, first.isSerializable, areSerializable_of_writable others]
      rfl

end

theorem showValue_eq_error_iff {v : Value} {f : Fault} :
    showValue v = .error f ↔ FirstRefused (nodes 0 v) f := by
  have shown_of_first : ∀ {g}, FirstRefused (nodes 0 v) g → showValue v = .error g := by
    intro g first
    rw [showValue, first.write_eq]
    rfl
  constructor
  · intro refused
    have notWritable : ¬∀ node ∈ nodes 0 v, ¬node.Refused := by
      intro accepted
      obtain ⟨text, shown⟩ := exists_showValue_iff.mpr (writable_iff_nodes.mpr accepted)
      rw [shown] at refused
      cases refused
    obtain ⟨g, first⟩ := FirstRefused.exists_of_refused notWritable
    rw [shown_of_first first] at refused
    cases refused
    exact first
  · exact shown_of_first

/-- A value is shown if and only if no node of it is refused, and fails with a fault if and
only if its first node to be refused is refused with it.  A value that holds a function is
never shown. -/
theorem showValue_fails_at_first_refused (v : Value) :
    ((∃ text, showValue v = .ok text) ↔ ∀ node ∈ nodes 0 v, ¬node.Refused) ∧
    (∀ f, showValue v = .error f ↔ FirstRefused (nodes 0 v) f) ∧
    (v.isSerializable = false → ∀ text, showValue v ≠ .ok text) := by
  refine ⟨exists_showValue_iff.trans writable_iff_nodes, fun f => showValue_eq_error_iff, ?_⟩
  intro function text shown
  have serializable := (exists_showValue_iff.mp ⟨text, shown⟩).isSerializable
  rw [function] at serializable
  cases serializable

/-- A function in a list within a list, in front of two unreadable symbols. -/
theorem showValue_fails_at_first_refused_function :
    let inner : Value := .list [.symbol "b", .callable (.primitive .add), .symbol "1"]
    let v : Value := .list [.string "a b", inner, .symbol ""]
    let f : Fault := .typeMismatch .serializable (.callable (.primitive .add))
    FirstRefused (nodes 0 v) f ∧ showValue v = .error f ∧ v.isSerializable = false ∧
      ∀ text, showValue v ≠ .ok text := by
  intro inner v f
  have readable : isReadableSymbol "b" = true := by decide
  have noString : ¬Node.Refused ⟨1, .string "a b"⟩ := by
    rintro ⟨_, refused⟩
    cases refused
  have first : FirstRefused (nodes 0 v) f := by
    refine ⟨[⟨0, v⟩, ⟨1, .string "a b"⟩, ⟨1, inner⟩, ⟨2, .symbol "b"⟩],
      ⟨2, .callable (.primitive .add)⟩, [⟨2, .symbol "1"⟩, ⟨1, .symbol ""⟩], rfl, ?_,
      .callable 2 _⟩
    simp [v, inner, noString, refused_list_iff, refused_symbol_iff, readable, nestingLimit]
  obtain ⟨-, fails, unserializable⟩ := showValue_fails_at_first_refused v
  exact ⟨first, (fails f).mpr first, rfl, unserializable rfl⟩

end EffectLisp.Datum
