import Pictograph.Proofs.Catalogue.Reachable

/-!
# Dispatch tables

A dispatch table of a class lists the symbols of one sort that are declared along its lineage, each
at the slot of its nearest declaration. It is the table of the superclass, followed by the symbols
that the class declares and the superclass does not know, in declaration order.

Registration does not have this list. It looks up what a procedure overrides, counts the others and
keeps the sizes of the tables. What connects the two is that the slot of a symbol is its *position*
in the list: an overriding member takes the slot it finds, which is the position in the table of the
superclass, and the others follow behind. All other properties of slots are properties of positions.

## Main definitions

* `Catalogue.dispatchTable`: the symbols of a class by their slots.
* `Catalogue.IsTable`: when a list of symbols is the table of a lookup.

## Main results

* `Catalogue.slot?_number`: what the numbering of one class does to the slots.
* `Catalogue.Reachable.tabled`: the slot of a symbol is its position in the table, and the table has
  the size that is kept.
* `Catalogue.Reachable.dispatch_tables_dense`: slots are dense, without collision and the same on
  all descendants.
-/

namespace Pictograph

namespace Catalogue

/-- The symbols of one sort that are declared along a lineage: those of the superclass, followed by
the new ones. -/
def tableOf (kind : Procedure.Kind) : List Class → List Symbol
  | [] => []
  | c :: ancestors =>
    let inherited := tableOf kind ancestors
    inherited ++ ((c.members kind).map (·.symbol)).filter (· ∉ inherited)

/-- The symbols of one sort that a class has by declarations along its lineage, each at its slot. -/
def dispatchTable (cat : Catalogue) (kind : Procedure.Kind) (id : TypeId) : List Symbol :=
  tableOf kind (cat.lineage id)

/-! ## Tables of ancestors -/

theorem tableOf_prefix {kind : Procedure.Kind} {l m : List Class} (h : l <:+ m) :
    tableOf kind l <+: tableOf kind m := by
  induction m with
  | nil => rw [List.suffix_nil.mp h]
  | cons c m ih =>
    obtain rfl | h := List.suffix_cons_iff.mp h
    · exact List.prefix_refl _
    · exact (ih h).trans (List.prefix_append _ _)

/-- The table of an ancestor is an initial part of the table of the class. -/
theorem Reachable.dispatchTable_prefix {cat : Catalogue} {id ancestor : TypeId} (h : cat.Reachable)
    (kind : Procedure.Kind) (hd : cat.descends id ancestor) :
    cat.dispatchTable kind ancestor <+: cat.dispatchTable kind id :=
  tableOf_prefix (h.lineage_suffix hd)

/-! ## Positions -/

section

variable {s : Symbol} {l m : List Symbol}

theorem idxOf?_append (s : Symbol) (l m : List Symbol) :
    (l ++ m).idxOf? s = (l.idxOf? s).or ((m.idxOf? s).map (· + l.length)) :=
  List.findIdx?_append

/-- Symbols keep their positions when a list is extended. -/
theorem idxOf?_of_prefix (h : l <+: m) (hs : s ∈ l) : m.idxOf? s = l.idxOf? s := by
  obtain ⟨rest, rfl⟩ := h
  obtain ⟨i, hi⟩ := Option.isSome_iff_exists.mp (List.isSome_idxOf?.mpr hs)
  rw [idxOf?_append, hi, Option.some_or]

theorem idxOf?_eq_some_iff_of_nodup {i : Nat} (h : l.Nodup) :
    l.idxOf? s = some i ↔ l[i]? = some s := by
  rw [List.idxOf?_eq_some_iff, List.getElem?_eq_some_iff]
  constructor
  · rintro ⟨hi, hs, -⟩
    exact ⟨hi, hs⟩
  · rintro ⟨hi, rfl⟩
    exact ⟨hi, rfl, fun j hj heq ↦ Nat.ne_of_lt hj ((List.Nodup.getElem_inj_iff h).mp heq)⟩

end

/-! ## Numbering one class -/

theorem named?_cons_self {m : Member} {s : Symbol} (h : m.symbol = s) (rest : List Member) :
    Member.named? (m :: rest) s = some m := by
  rw [Member.named?, List.find?_cons, h, beq_self_eq_true]

theorem named?_cons_of_ne {m : Member} {s : Symbol} (h : m.symbol ≠ s) (rest : List Member) :
    Member.named? (m :: rest) s = Member.named? rest s :=
  List.find?_cons_of_neg (by simpa using h)

section

variable {overridden? : Symbol → Option Member} {kind : Procedure.Kind} {owner : TypeId}

theorem map_symbol_number (next : Nat) (procedures : List Procedure) :
    (number overridden? kind owner next procedures).1.map (·.symbol)
      = procedures.map (·.symbol) := by
  induction procedures generalizing next with
  | nil => rfl
  | cons p rest ih =>
    rw [number]
    split
    · exact congrArg (p.symbol :: ·) (ih next)
    · exact congrArg (p.symbol :: ·) (ih (next + 1))

/-- The symbols that override nothing. -/
def newSymbols (overridden? : Symbol → Option Member) (procedures : List Procedure) : List Symbol :=
  (procedures.map (·.symbol)).filter fun s ↦ (overridden? s).isNone

theorem newSymbols_cons_of_some {p : Procedure} {o : Member} (h : overridden? p.symbol = some o)
    (rest : List Procedure) :
    newSymbols overridden? (p :: rest) = newSymbols overridden? rest := by
  rw [newSymbols, List.map_cons, List.filter_cons_of_neg (by simp [h]), newSymbols]

theorem newSymbols_cons_of_none {p : Procedure} (h : overridden? p.symbol = none)
    (rest : List Procedure) :
    newSymbols overridden? (p :: rest) = p.symbol :: newSymbols overridden? rest := by
  rw [newSymbols, List.map_cons, List.filter_cons_of_pos (by simp [h]), newSymbols]

/-- The next free slot goes up by one for each new symbol. -/
theorem number_snd (next : Nat) (procedures : List Procedure) :
    (number overridden? kind owner next procedures).2
      = next + (newSymbols overridden? procedures).length := by
  induction procedures generalizing next with
  | nil => rfl
  | cons p rest ih =>
    rw [number]
    split
    · next o ho => rw [newSymbols_cons_of_some ho, ih]
    · next ho =>
      rw [newSymbols_cons_of_none ho, ih, List.length_cons, Nat.add_assoc, Nat.add_comm 1]

/-- **The slots of one class.** A symbol that is overridden or inherited has the slot it had, and a
new one is placed behind the slots that are taken. -/
theorem slot?_number (next : Nat) (procedures : List Procedure) (s : Symbol) :
    ((Member.named? (number overridden? kind owner next procedures).1 s).or (overridden? s)).map
        (·.slot)
      = ((overridden? s).map (·.slot)).or
        (((newSymbols overridden? procedures).idxOf? s).map (· + next)) := by
  induction procedures generalizing next with
  | nil => cases overridden? s <;> rfl
  | cons p rest ih =>
    rw [number]
    split
    · next o ho =>
      rw [newSymbols_cons_of_some ho]
      by_cases hs : p.symbol = s
      · subst hs
        rw [named?_cons_self rfl, ho]
        rfl
      · rw [named?_cons_of_ne hs]
        exact ih next
    · next ho =>
      rw [newSymbols_cons_of_none ho, List.idxOf?_cons]
      by_cases hs : p.symbol = s
      · subst hs
        rw [named?_cons_self rfl, ho, beq_self_eq_true, if_pos rfl, Option.map_some, Nat.zero_add]
        rfl
      · have hshift : ((· + next) ∘ fun i ↦ i + 1) = (· + (next + 1)) := by
          funext i
          exact Nat.add_right_comm i 1 next
        rw [named?_cons_of_ne hs, if_neg (by simpa using hs), Option.map_map, hshift]
        exact ih (next + 1)

end

/-! ## One more class -/

/-- A list of symbols is the table of a lookup if each symbol is at its slot. -/
structure IsTable (lookup? : Symbol → Option Member) (symbols : List Symbol) : Prop where
  /-- No symbol is listed twice. -/
  nodup : symbols.Nodup
  /-- The slot of a symbol is its position. -/
  slot : ∀ s, (lookup? s).map (·.slot) = symbols.idxOf? s

theorem IsTable.mem_iff {lookup? : Symbol → Option Member} {symbols : List Symbol} {s : Symbol}
    (h : IsTable lookup? symbols) : s ∈ symbols ↔ (lookup? s).isSome := by
  rw [← List.isSome_idxOf?, ← h.slot, Option.isSome_map]

/-- Numbering extends the table of what is inherited by the symbols that are new. -/
theorem IsTable.number {overridden? : Symbol → Option Member} {kind : Procedure.Kind}
    {owner : TypeId} {inherited : List Symbol} {procedures : List Procedure}
    (h : IsTable overridden? inherited) (hp : (procedures.map (·.symbol)).Nodup) :
    IsTable
      (fun s ↦ (Member.named? (number overridden? kind owner inherited.length procedures).1 s).or
        (overridden? s))
      (inherited ++ newSymbols overridden? procedures) where
  nodup := by
    refine List.Nodup.append h.nodup (hp.filter _) fun s hs hnew ↦ ?_
    have hnone := (List.mem_filter.mp hnew).2
    rw [Option.isNone_iff_eq_none, ← Option.not_isSome_iff_eq_none] at hnone
    exact hnone (h.mem_iff.mp hs)
  slot s := by rw [slot?_number, h.slot, idxOf?_append]

section

variable {cat : Catalogue} {d : ClassDeclaration} {kind : Procedure.Kind}

/-- The table that a class takes over from its superclass. -/
def inheritedTable (cat : Catalogue) (d : ClassDeclaration) (kind : Procedure.Kind) : List Symbol :=
  d.superclass?.elim [] (cat.dispatchTable kind)

theorem lineage_entry (cat : Catalogue) (d : ClassDeclaration) :
    (cat.withClass (cat.entry d)).lineage d.typeId
      = cat.entry d :: d.superclass?.elim [] cat.lineage :=
  lineage_withClass_self cat (cat.entry d)

theorem nearest?_entry (cat : Catalogue) (d : ClassDeclaration) (kind : Procedure.Kind) :
    (cat.withClass (cat.entry d)).nearest? kind d.typeId
      = fun s ↦ (Member.named? (cat.numbered d kind).1 s).or (cat.overridden? d kind s) := by
  funext s
  have hown : (cat.entry d).own? kind s = Member.named? (cat.numbered d kind).1 s := by
    rw [Class.own?, members_entry]
  rw [nearest?, lineage_entry, List.findSome?_cons, hown, overridden?]
  cases Member.named? (cat.numbered d kind).1 s <;> cases d.superclass? <;> rfl

theorem dispatchTable_entry (h : IsTable (cat.overridden? d kind) (cat.inheritedTable d kind)) :
    (cat.withClass (cat.entry d)).dispatchTable kind d.typeId
      = cat.inheritedTable d kind ++ newSymbols (cat.overridden? d kind) (d.procedures kind) := by
  have hinherited : tableOf kind (d.superclass?.elim [] cat.lineage)
      = cat.inheritedTable d kind := by
    rw [inheritedTable]
    cases d.superclass? <;> rfl
  have hnew (s : Symbol) : decide (s ∉ cat.inheritedTable d kind)
      = (cat.overridden? d kind s).isNone := by
    simp only [h.mem_iff]
    cases cat.overridden? d kind s <;> rfl
  rw [dispatchTable, lineage_entry, tableOf, hinherited, members_entry, numbered,
    map_symbol_number, newSymbols]
  simp only [hnew]

end

/-- What holds of the slots of one sort on a class: they are positions in its table, which has the
size that the class keeps. -/
structure Tabled (cat : Catalogue) (kind : Procedure.Kind) (id : TypeId) : Prop where
  /-- The slot of a symbol is its position in the table. -/
  isTable : IsTable (cat.nearest? kind id) (cat.dispatchTable kind id)
  /-- The size of the table is kept with the class. -/
  size : ∀ c, cat.class? id = some c → c.tables.size kind = (cat.dispatchTable kind id).length

section

variable {cat : Catalogue} {d : ClassDeclaration} {kind : Procedure.Kind}

theorem isTable_inheritedTable (ht : ∀ id, cat.Tabled kind id) :
    IsTable (cat.overridden? d kind) (cat.inheritedTable d kind) := by
  have hov : cat.overridden? d kind = fun s ↦ d.superclass?.bind (cat.nearest? kind · s) := rfl
  rw [hov, inheritedTable]
  cases d.superclass? with
  | none => exact ⟨List.nodup_nil, fun _ ↦ rfl⟩
  | some parent => exact (ht parent).isTable

theorem size_inheritedSizes (h : cat.Admits d) (ht : ∀ id, cat.Tabled kind id) :
    (cat.inheritedSizes d).size kind = (cat.inheritedTable d kind).length := by
  rw [inheritedSizes, inheritedTable]
  cases hs : d.superclass? with
  | none => cases kind <;> rfl
  | some parent =>
    obtain ⟨c, hc⟩ := Option.isSome_iff_exists.mp (h.superclass parent hs)
    rw [Option.bind_some, hc]
    exact (ht parent).size c hc

/-- The slots of a class depend on its lineage alone. -/
theorem Tabled.of_lineage_eq {cat' : Catalogue} {id : TypeId} (ht : cat.Tabled kind id)
    (h : cat'.lineage id = cat.lineage id) : cat'.Tabled kind id := by
  have hnearest : cat'.nearest? kind id = cat.nearest? kind id := by
    funext s
    rw [nearest?, h, nearest?]
  have htable : cat'.dispatchTable kind id = cat.dispatchTable kind id := by
    rw [dispatchTable, h, dispatchTable]
  have hclass : cat'.class? id = cat.class? id := by rw [← head?_lineage, h, head?_lineage]
  constructor
  · rw [hnearest, htable]
    exact ht.isTable
  · rw [hclass, htable]
    exact ht.size

/-- Registering a class numbers its members by positions, and moves no other slot. -/
theorem Tabled.withClass (h : cat.Admits d) (ht : ∀ id, cat.Tabled kind id) (id : TypeId) :
    (cat.withClass (cat.entry d)).Tabled kind id := by
  by_cases hid : d.typeId = id
  · subst hid
    have hinherited := isTable_inheritedTable (d := d) ht
    have hnumbered : cat.numbered d kind = number (cat.overridden? d kind) kind d.typeId
        (cat.inheritedTable d kind).length (d.procedures kind) := by
      rw [numbered, size_inheritedSizes h ht]
    constructor
    · rw [dispatchTable_entry hinherited, nearest?_entry, hnumbered]
      exact hinherited.number (h.distinct kind)
    · intro c hc
      rw [class?_withClass, id_entry, if_pos rfl] at hc
      cases hc
      rw [size_tables_entry, hnumbered, number_snd, dispatchTable_entry hinherited,
        List.length_append]
  · exact (ht id).of_lineage_eq (lineage_withClass_of_ne (c := cat.entry d) hid)

end

/-! ## All catalogues -/

namespace Reachable

variable {cat : Catalogue} {kind : Procedure.Kind} {id ancestor : TypeId}

/-- The slots of every class are positions in its table. -/
theorem tabled (h : cat.Reachable) (kind : Procedure.Kind) (id : TypeId) : cat.Tabled kind id := by
  induction h generalizing id with
  | empty => exact ⟨⟨List.nodup_nil, fun _ ↦ rfl⟩, fun _ hc ↦ nomatch hc⟩
  | @add cat cat' _ _ hadd ih =>
    obtain hsame | ⟨d, hd, rfl⟩ := latestClasses_of_add hadd
    · exact (ih id).of_lineage_eq (by rw [lineage, hsame, lineage])
    · exact Tabled.withClass hd ih id

/-- A symbol that is visible on an ancestor has the same slot on the class. -/
theorem slot_of_descends {s : Symbol} {m : Member} (h : cat.Reachable)
    (hd : cat.descends id ancestor) (hm : cat.nearest? kind ancestor s = some m) :
    ∃ m', cat.nearest? kind id s = some m' ∧ m'.slot = m.slot := by
  have hs : s ∈ cat.dispatchTable kind ancestor := by
    rw [(h.tabled kind ancestor).isTable.mem_iff, hm]
    rfl
  have hslot : (cat.nearest? kind id s).map (·.slot) = some m.slot := by
    rw [(h.tabled kind id).isTable.slot, idxOf?_of_prefix (h.dispatchTable_prefix kind hd) hs,
      ← (h.tabled kind ancestor).isTable.slot, hm, Option.map_some]
  exact Option.map_eq_some_iff.mp hslot

/-- **Dispatch tables are dense, free of collisions and stable.** On every class, the symbols that
are visible can be listed without repetition such that the nearest declaration of a symbol has slot
`i` just if the symbol is at position `i` of the list. So `n` visible symbols have the slots below
`n`, one each. A symbol that is visible on an ancestor has the same slot there. -/
theorem dispatch_tables_dense (h : cat.Reachable) (kind : Procedure.Kind) (id : TypeId) :
    (cat.dispatchTable kind id).Nodup
    ∧ (∀ s, s ∈ cat.dispatchTable kind id ↔ (cat.nearest? kind id s).isSome)
    ∧ (∀ s i, (cat.nearest? kind id s).map (·.slot) = some i
        ↔ (cat.dispatchTable kind id)[i]? = some s)
    ∧ ∀ ancestor, cat.descends id ancestor → ∀ s m, cat.nearest? kind ancestor s = some m →
        ∃ m', cat.nearest? kind id s = some m' ∧ m'.slot = m.slot := by
  have htable := (h.tabled kind id).isTable
  refine ⟨htable.nodup, fun s ↦ htable.mem_iff, fun s i ↦ ?_, fun a hd s m hm ↦
    h.slot_of_descends hd hm⟩
  rw [htable.slot, idxOf?_eq_some_iff_of_nodup htable.nodup]

end Reachable

end Catalogue

namespace Sample

/-- A class 🐈 with methods 🐾 and 🐕. -/
def wide : ClassDeclaration where
  space := Vocabulary.defaultNamespace
  name := ⟨0x1F408⟩
  methods := [{ symbol := ⟨0x1F43E⟩ }, { symbol := ⟨0x1F415⟩ }]

/-- A subclass 🐅 of 🐈 with a method 🐁 and one that overrides 🐕. -/
def narrow : ClassDeclaration where
  space := Vocabulary.defaultNamespace
  name := ⟨0x1F405⟩
  superclass? := some wide.typeId
  methods := [{ symbol := ⟨0x1F401⟩ }, { symbol := ⟨0x1F415⟩ }]

/-- The catalogue of both classes. -/
def hierarchy : Catalogue :=
  (Catalogue.empty.addIfPossible (.ofClass wide)).addIfPossible (.ofClass narrow)

end Sample

/-- The subclass has three methods. The one that overrides has the second slot, as on the
superclass. -/
theorem Catalogue.Reachable.dispatch_tables_dense_sample :
    Sample.hierarchy.Reachable
    ∧ (∀ s i, (Sample.hierarchy.nearest? .method Sample.narrow.typeId s).map (·.slot) = some i
        ↔ ([⟨0x1F43E⟩, ⟨0x1F415⟩, ⟨0x1F401⟩] : List Symbol)[i]? = some s)
    ∧ ∃ m, Sample.hierarchy.nearest? .method Sample.narrow.typeId ⟨0x1F415⟩ = some m
        ∧ m.slot = 1 := by
  have hreach : Sample.hierarchy.Reachable :=
    (Reachable.empty.addIfPossible (.ofClass Sample.wide)).addIfPossible (.ofClass Sample.narrow)
  have hdescends : Sample.hierarchy.descends Sample.narrow.typeId Sample.wide.typeId := by
    decide +kernel
  have htable : Sample.hierarchy.dispatchTable .method Sample.narrow.typeId
      = [⟨0x1F43E⟩, ⟨0x1F415⟩, ⟨0x1F401⟩] := by
    decide +kernel
  obtain ⟨m, hm, hslot⟩ : ∃ m, Sample.hierarchy.nearest? .method Sample.wide.typeId ⟨0x1F415⟩
      = some m ∧ m.slot = 1 := by
    refine ⟨_, Option.eq_some_of_isSome (by decide +kernel), by decide +kernel⟩
  obtain ⟨-, -, hpositions, hstable⟩ :=
    hreach.dispatch_tables_dense .method Sample.narrow.typeId
  rw [htable] at hpositions
  obtain ⟨m', hm', hsame⟩ := hstable _ hdescends _ _ hm
  exact ⟨hreach, hpositions, m', hm', hsame.trans hslot⟩

end Pictograph
