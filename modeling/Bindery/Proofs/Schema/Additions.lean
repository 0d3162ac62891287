import Bindery.Proofs.Attempts
import Bindery.Proofs.Distinct
import Bindery.Proofs.Schema.TagTable

/-!
# Adding tags in any order

Tags are added to a table one after another, where one that cannot be added leaves the table as it
was. What a table has stays at its place, and new tags follow in the order in which they were first
admitted. A tag that was neither generic nor in the table stands for what its first addition says,
and an addition is admitted exactly if it agrees with the table at the end. So additions of different
tags can be made in any order.
-/

namespace Bindery.Schema
set_option autoImplicit false

/-- A tag and what it is to stand for. -/
abbrev Addition := String × Primitive

namespace TagTable

/-- Whether a tag can be added. -/
def admits (table : TagTable) (new : Addition) : Bool :=
  (table.add new.1 new.2).toOption.isSome

/-- The table with a tag added, or as it was if the tag cannot be added. -/
def extended (table : TagTable) (new : Addition) : TagTable :=
  (table.add new.1 new.2).toOption.getD table

/-- The table after additions, one after another. -/
def extendedAll (table : TagTable) (additions : List Addition) : TagTable :=
  additions.foldl extended table

/-- The additions that are admitted, in their order. -/
def admitted (table : TagTable) : List Addition → List Addition
  | [] => []
  | new :: rest => (if table.admits new then [new] else []) ++ (table.extended new).admitted rest

/-- The additions by which tags come into the table: of those admitted for a tag that it did not
have, the first. -/
def firstAdmitted (table : TagTable) (additions : List Addition) : List Addition :=
  ((table.admitted additions).filter fun new => (table.lookup new.1).isNone).eraseDups

/-- The entry of a new tag. -/
def newEntry (new : Addition) : String × Mapping :=
  (new.1, ⟨new.2, false⟩)

variable {table : TagTable} {new : Addition} {additions more : List Addition} {tag : String}
  {present : Mapping}

/-! ## One addition -/

theorem admits_iff : table.admits new = true ↔ new.1 ∉ genericTags ∧
    ∀ present, table.lookup new.1 = some present → present.primitive = new.2 := by
  unfold admits add
  split
  · next generic => simp [Except.toOption, generic]
  · next fresh =>
    split
    · next present found =>
      split
      · next same => simp [Except.toOption, fresh, found, same]
      · next other => simp [Except.toOption, found, other]
    · next unknown => simp [Except.toOption, fresh, unknown]

theorem extended_eq : table.extended new =
    if new.1 ∉ genericTags ∧ table.lookup new.1 = none then ⟨table.entries ++ [newEntry new]⟩
    else table := by
  unfold extended add
  split
  · next generic => simp [Except.toOption, generic]
  · next fresh =>
    split
    · next present found =>
      split <;> simp [Except.toOption, found]
    · next unknown => simp [Except.toOption, fresh, unknown, newEntry]

/-- What a tag stands for after an addition: what it stood for, else what a fitting addition says. -/
theorem lookup_extended : (table.extended new).lookup tag = (table.lookup tag).or
    (if tag = new.1 ∧ tag ∉ genericTags then some ⟨new.2, false⟩ else none) := by
  rw [extended_eq]
  split
  · next absent =>
    obtain ⟨fresh, unknown⟩ := absent
    rw [lookup, List.lookup_append, lookup]
    by_cases same : tag = new.1
    · subst same
      simp [newEntry, fresh]
    · have other : (tag == new.1) = false := beq_eq_false_iff_ne.2 same
      simp [newEntry, List.lookup_cons, other, same]
  · next absent =>
    by_cases same : tag = new.1 ∧ tag ∉ genericTags
    · obtain ⟨rfl, fresh⟩ := same
      cases found : table.lookup new.1 with
      | none => exact absurd ⟨fresh, found⟩ absent
      | some present => rfl
    · rw [if_neg same, Option.or_none]

/-- An addition is admitted exactly if it agrees with the table that it gives. -/
theorem admits_iff_lookup_extended : table.admits new = true ↔ new.1 ∉ genericTags ∧
    ∃ present, (table.extended new).lookup new.1 = some present ∧ present.primitive = new.2 := by
  rw [admits_iff, lookup_extended]
  refine and_congr_right fun fresh => ?_
  cases found : table.lookup new.1 with
  | none => simp [fresh]
  | some present => simp

theorem extended_of_not_admits (refused : ¬table.admits new = true) : table.extended new = table := by
  rw [extended_eq, if_neg]
  rintro ⟨fresh, unknown⟩
  refine refused (admits_iff.2 ⟨fresh, fun present found => ?_⟩)
  rw [unknown] at found
  cases found

theorem add_eq_error_iff : (∃ error, table.add new.1 new.2 = .error error) ↔
    ¬table.admits new = true := by
  unfold admits
  cases table.add new.1 new.2 <;> simp [Except.toOption]

theorem add_eq_ok_iff {after : TagTable} : table.add new.1 new.2 = .ok after ↔
    table.admits new = true ∧ after = table.extended new := by
  unfold admits extended
  cases table.add new.1 new.2 <;> simp [Except.toOption, eq_comm]

/-! ## Additions one after another -/

@[simp] theorem extendedAll_nil : table.extendedAll [] = table := rfl

@[simp] theorem extendedAll_cons :
    table.extendedAll (new :: additions) = (table.extended new).extendedAll additions := rfl

theorem extendedAll_append : table.extendedAll (additions ++ more) =
    (table.extendedAll additions).extendedAll more :=
  List.foldl_append

theorem admitted_append : table.admitted (additions ++ more) =
    table.admitted additions ++ (table.extendedAll additions).admitted more := by
  induction additions generalizing table with
  | nil => rfl
  | cons new rest ih =>
    rw [List.cons_append, admitted, admitted, ih, extendedAll_cons, List.append_assoc]

/-- What a tag stands for after additions: what it stood for, else what the first of them for the
tag says. -/
theorem lookup_extendedAll : (table.extendedAll additions).lookup tag = (table.lookup tag).or
    (if tag ∈ genericTags then none else (additions.lookup tag).map (⟨·, false⟩)) := by
  induction additions generalizing table with
  | nil => simp
  | cons new rest ih =>
    rw [extendedAll_cons, ih, lookup_extended, Option.or_assoc, List.lookup_cons]
    by_cases same : tag = new.1
    · subst same
      by_cases generic : new.1 ∈ genericTags <;> simp [generic]
    · have other : (tag == new.1) = false := beq_eq_false_iff_ne.2 same
      simp [same, other]

theorem lookup_extendedAll_of_some (found : table.lookup tag = some present) :
    (table.extendedAll additions).lookup tag = some present := by
  rw [lookup_extendedAll, found, Option.some_or]

/-- **Additions are admitted exactly if they agree with the table at the end.** -/
theorem mem_admitted_iff : new ∈ table.admitted additions ↔ new ∈ additions ∧
    new.1 ∉ genericTags ∧ ∃ present, (table.extendedAll additions).lookup new.1 = some present ∧
      present.primitive = new.2 := by
  induction additions generalizing table with
  | nil => simp [admitted]
  | cons first rest ih =>
    -- Once an addition was tried, the table stays with what it then says of its tag.
    have settled (fresh : first.1 ∉ genericTags) : ∃ present,
        (table.extended first).lookup first.1 = some present ∧
          (table.extendedAll (first :: rest)).lookup first.1 = some present := by
      have known : ((table.extended first).lookup first.1).isSome = true := by
        simp [lookup_extended, fresh]
      obtain ⟨present, found⟩ := Option.isSome_iff_exists.1 known
      refine ⟨present, found, ?_⟩
      rw [extendedAll_cons]
      exact lookup_extendedAll_of_some found
    have here : table.admits first = true ↔ first.1 ∉ genericTags ∧ ∃ present,
        (table.extendedAll (first :: rest)).lookup first.1 = some present ∧
          present.primitive = first.2 := by
      rw [admits_iff_lookup_extended]
      refine and_congr_right fun fresh => ?_
      obtain ⟨present, found, final⟩ := settled fresh
      rw [found, final]
    rw [admitted, List.mem_append, ih, List.mem_cons, ← extendedAll_cons]
    constructor
    · rintro (mem | ⟨mem, agrees⟩)
      · split at mem
        · next admits =>
          obtain rfl := List.mem_singleton.1 mem
          exact ⟨.inl rfl, here.1 admits⟩
        · cases mem
      · exact ⟨.inr mem, agrees⟩
    · rintro ⟨rfl | mem, agrees⟩
      · rw [if_pos (here.2 agrees)]
        exact .inl List.mem_cons_self
      · exact .inr ⟨mem, agrees⟩

/-- Values of new tags lose no precision. -/
theorem eq_of_lookup_extendedAll (unknown : table.lookup tag = none)
    (found : (table.extendedAll additions).lookup tag = some present) :
    present = ⟨present.primitive, false⟩ ∧ (tag, present.primitive) ∈ additions := by
  rw [lookup_extendedAll, unknown, Option.none_or] at found
  split at found
  · cases found
  · obtain ⟨primitive, first, rfl⟩ := Option.map_eq_some_iff.1 found
    exact ⟨rfl, mem_of_lookup first⟩

/-- A tag comes into the table if the table did not have it and has it at the end. -/
theorem mem_firstAdmitted_iff : new ∈ table.firstAdmitted additions ↔
    table.lookup new.1 = none ∧
      (table.extendedAll additions).lookup new.1 = some ⟨new.2, false⟩ := by
  rw [firstAdmitted, List.mem_eraseDups, List.mem_filter, Option.isNone_iff_eq_none, and_comm]
  refine and_congr_right fun unknown => ?_
  rw [mem_admitted_iff]
  constructor
  · rintro ⟨-, -, present, found, agrees⟩
    rw [found, (eq_of_lookup_extendedAll unknown found).1, agrees]
  · intro found
    refine ⟨(eq_of_lookup_extendedAll unknown found).2, fun generic => ?_, _, found, rfl⟩
    rw [lookup_extendedAll, unknown, if_pos generic] at found
    cases found

/-- One more addition brings its tag in if the table has no such tag by then. -/
theorem firstAdmitted_snoc : table.firstAdmitted (additions ++ [new]) =
    table.firstAdmitted additions ++
      if new.1 ∉ genericTags ∧ (table.extendedAll additions).lookup new.1 = none then [new]
      else [] := by
  have admitted : table.admitted (additions ++ [new]) = table.admitted additions ++
      if (table.extendedAll additions).admits new then [new] else [] := by
    rw [admitted_append]
    simp [admitted]
  have among : new ∈ (table.admitted additions).filter (fun new => (table.lookup new.1).isNone) ↔
      table.lookup new.1 = none ∧
        (table.extendedAll additions).lookup new.1 = some ⟨new.2, false⟩ := by
    rw [← mem_firstAdmitted_iff, firstAdmitted, List.mem_eraseDups]
  unfold firstAdmitted
  rw [admitted, List.filter_append]
  by_cases admits : (table.extendedAll additions).admits new = true
  · obtain ⟨fresh, agrees⟩ := admits_iff.1 admits
    rw [if_pos admits]
    cases unknown : table.lookup new.1 with
    | some present =>
      have known : (table.extendedAll additions).lookup new.1 = some present :=
        lookup_extendedAll_of_some unknown
      simp [unknown, known]
    | none =>
      rw [List.filter_singleton, unknown]
      cases found : (table.extendedAll additions).lookup new.1 with
      | none =>
        rw [if_pos ⟨fresh, rfl⟩]
        refine eraseDups_snoc_of_not_mem fun mem => ?_
        rw [among, found] at mem
        exact absurd mem.2 (by simp)
      | some present =>
        have same : present = ⟨new.2, false⟩ :=
          agrees present found ▸ (eq_of_lookup_extendedAll unknown found).1
        rw [if_neg (by simp), List.append_nil]
        exact eraseDups_snoc_of_mem (among.2 ⟨unknown, same ▸ found⟩)
  · have stays : ¬(new.1 ∉ genericTags ∧ (table.extendedAll additions).lookup new.1 = none) :=
      fun comes => admits (admits_iff.2 ⟨comes.1, by simp [comes.2]⟩)
    rw [if_neg admits, if_neg stays, List.filter_nil, List.append_nil, List.append_nil]

/-- New tags are put behind those that are there, in the order in which they were first admitted. -/
theorem entries_extendedAll : (table.extendedAll additions).entries =
    table.entries ++ (table.firstAdmitted additions).map newEntry := by
  induction additions using List.reverseRecOn with
  | nil => simp [firstAdmitted, admitted]
  | append_singleton additions new ih =>
    have last : table.extendedAll (additions ++ [new]) =
        (table.extendedAll additions).extended new := by
      rw [extendedAll_append]
      rfl
    rw [last, extended_eq, firstAdmitted_snoc, List.map_append, ← List.append_assoc, ← ih]
    split
    · rfl
    · simp

theorem admitted_sublist : (table.admitted additions).Sublist additions := by
  induction additions generalizing table with
  | nil => exact .slnil
  | cons new rest ih =>
    rw [admitted]
    split
    · exact ih.cons_cons new
    · exact ih.cons new

/-- Tags are added all at once exactly if each of them is admitted. -/
theorem addAll_eq_ok_iff {after : TagTable} : table.addAll additions = .ok after ↔
    table.admitted additions = additions ∧ after = table.extendedAll additions := by
  unfold addAll
  induction additions generalizing table with
  | nil => simp [pure, Except.pure, admitted, eq_comm]
  | cons new rest ih =>
    have first : table.admitted (new :: rest) = new :: rest ↔
        table.admits new = true ∧ (table.extended new).admitted rest = rest := by
      by_cases admits : table.admits new = true
      · simp [admitted, admits]
      · rw [admitted, if_neg admits, List.nil_append]
        refine iff_of_false (fun same => ?_) (fun all => admits all.1)
        have shorter := (@admitted_sublist (table.extended new) rest).length_le
        rw [same, List.length_cons] at shorter
        omega
    rw [List.foldlM_cons, bind_eq_ok, first, extendedAll_cons]
    constructor
    · rintro ⟨between, added, others⟩
      obtain ⟨admits, rfl⟩ := add_eq_ok_iff.1 added
      obtain ⟨all, last⟩ := ih.1 others
      exact ⟨⟨admits, all⟩, last⟩
    · rintro ⟨⟨admits, all⟩, last⟩
      exact ⟨_, add_eq_ok_iff.2 ⟨admits, rfl⟩, ih.2 ⟨all, last⟩⟩

/-! ## Tables that can be reached -/

theorem Reachable.extendedAll (h : Reachable table) : Reachable (table.extendedAll additions) := by
  induction additions generalizing table with
  | nil => exact h
  | cons new rest ih =>
    apply ih
    by_cases admits : table.admits new = true
    · exact h.add (add_eq_ok_iff.2 ⟨admits, rfl⟩)
    · rw [extended_of_not_admits admits]
      exact h

theorem Reachable.nodup_tags (h : Reachable table) : (table.entries.map (·.1)).Nodup := by
  induction h with
  | builtin => decide
  | @add before after tag _ _ added ih =>
    obtain ⟨-, ⟨_, -, -, rfl⟩ | ⟨unknown, rfl⟩⟩ := add_cases added
    · exact ih
    · rw [List.map_append]
      refine nodup_snoc ih fun mem => ?_
      obtain ⟨entry, there, rfl⟩ := List.mem_map.1 mem
      have found : before.lookup entry.1 = some entry.2 := lookup_of_mem ih there
      rw [unknown] at found
      cases found

theorem Reachable.not_generic (h : Reachable table) {entry : String × Mapping}
    (mem : entry ∈ table.entries) : entry.1 ∉ genericTags := by
  intro generic
  have found : table.lookup entry.1 = some entry.2 := lookup_of_mem h.nodup_tags mem
  rw [h.lookup_generic generic] at found
  cases found

/-- An addition fails on the tags that JSON has of itself, and where the table says otherwise. -/
theorem Reachable.add_eq_error_iff (h : Reachable table) :
    (∃ error, table.add new.1 new.2 = .error error) ↔
      new.1 ∈ genericTags ∨
        ∃ present, (new.1, present) ∈ table.entries ∧ present.primitive ≠ new.2 := by
  have known (present : Mapping) :
      table.lookup new.1 = some present ↔ (new.1, present) ∈ table.entries :=
    ⟨mem_of_lookup, lookup_of_mem h.nodup_tags⟩
  rw [TagTable.add_eq_error_iff, admits_iff, not_and_or, not_not, not_forall]
  simp only [known, Classical.not_imp, ne_eq]

/-! ## The order of additions -/

/-- What tags stand for does not depend on the order of additions of different tags. -/
theorem lookup_of_perm_additions {order : List Addition} (same : order.Perm additions)
    (distinct : (additions.map (·.1)).Nodup) :
    (table.extendedAll order).lookup tag = (table.extendedAll additions).lookup tag := by
  rw [lookup_extendedAll, lookup_extendedAll, lookup_of_perm same distinct]

/-- **Additions extend the built-in table.** After any additions, of which those that fail leave the
table as it was, the twelve built-in entries come first and behind them the tags that were added, in
the order in which they were first admitted and none of them lossy. No tag has two entries and no
generic tag has any, and further additions leave all entries where they are. An addition fails exactly
if its tag is generic or has an entry for something else; all of them can be added at once exactly if
none fails. Of additions for different tags the same ones succeed in any order, and every tag then
stands for the same. -/
theorem additions_extend_builtin (additions : List Addition) :
    let table := builtin.extendedAll additions
    (builtin.entries.length = 12 ∧
      table.entries = builtin.entries ++ (builtin.firstAdmitted additions).map newEntry) ∧
    (table.entries.map (·.1)).Nodup ∧
    (∀ entry ∈ table.entries, entry.1 ∉ genericTags) ∧
    (∀ more, table.entries <+: (builtin.extendedAll (additions ++ more)).entries) ∧
    (∀ new : Addition, (∃ error, table.add new.1 new.2 = .error error) ↔
      new.1 ∈ genericTags ∨
        ∃ present, (new.1, present) ∈ table.entries ∧ present.primitive ≠ new.2) ∧
    (∀ after, builtin.addAll additions = .ok after ↔
      builtin.admitted additions = additions ∧ after = table) ∧
    ∀ order : List Addition, order.Perm additions → (additions.map (·.1)).Nodup →
      (∀ new, new ∈ builtin.admitted order ↔ new ∈ builtin.admitted additions) ∧
        ∀ tag, (builtin.extendedAll order).lookup tag = table.lookup tag := by
  intro table
  have reachable : Reachable table := Reachable.builtin.extendedAll
  refine ⟨⟨by decide, entries_extendedAll⟩, reachable.nodup_tags, fun _ => reachable.not_generic, ?_,
    fun _ => reachable.add_eq_error_iff, fun _ => addAll_eq_ok_iff, ?_⟩
  · intro more
    have further : (table.extendedAll more).entries =
        table.entries ++ (table.firstAdmitted more).map newEntry := entries_extendedAll
    rw [extendedAll_append, further]
    exact List.prefix_append _ _
  · intro order same distinct
    constructor
    · intro new
      rw [mem_admitted_iff, mem_admitted_iff, same.mem_iff, lookup_of_perm_additions same distinct]
    · intro tag
      exact lookup_of_perm_additions same distinct

/-- Two new tags, a built-in tag as it is, one as something else, and a generic one. -/
def mixedAdditions : List Addition :=
  [("outpoint", .text), ("u64", .number), ("msat", .text), ("string", .number), ("fee", .number)]

theorem additions_extend_builtin_mixed :
    mixedAdditions.reverse.Perm mixedAdditions ∧ (mixedAdditions.map (·.1)).Nodup ∧
      builtin.admitted mixedAdditions = [("outpoint", .text), ("u64", .number), ("fee", .number)] ∧
      (builtin.extendedAll mixedAdditions).entries =
        builtin.entries ++ [("outpoint", ⟨.text, false⟩), ("fee", ⟨.number, false⟩)] ∧
      (builtin.extendedAll mixedAdditions.reverse).entries =
        builtin.entries ++ [("fee", ⟨.number, false⟩), ("outpoint", ⟨.text, false⟩)] ∧
      (∀ new, new ∈ builtin.admitted mixedAdditions.reverse ↔ new ∈ builtin.admitted mixedAdditions) ∧
      ∀ tag, (builtin.extendedAll mixedAdditions.reverse).lookup tag =
        (builtin.extendedAll mixedAdditions).lookup tag := by
  have same : mixedAdditions.reverse.Perm mixedAdditions := List.reverse_perm _
  have distinct : (mixedAdditions.map (·.1)).Nodup := by decide
  obtain ⟨⟨-, entries⟩, -, -, -, -, -, orders⟩ := additions_extend_builtin mixedAdditions
  obtain ⟨⟨-, reversed⟩, -⟩ := additions_extend_builtin mixedAdditions.reverse
  obtain ⟨admitted, lookups⟩ := orders _ same distinct
  have first : builtin.firstAdmitted mixedAdditions = [("outpoint", .text), ("fee", .number)] := by
    decide +kernel
  have last : builtin.firstAdmitted mixedAdditions.reverse =
      [("fee", .number), ("outpoint", .text)] := by
    decide +kernel
  rw [first] at entries
  rw [last] at reversed
  exact ⟨same, distinct, by decide +kernel, entries, reversed, admitted, lookups⟩

end TagTable

end Bindery.Schema
