import GodotLint.Json.Basic
import GodotLint.Json.Read
import GodotLint.Proofs.SortedMap

/-!
# Places of a JSON value, and what is read

A place is the way to a part of a value: into members of objects by their keys and into items of arrays by
their positions (`at?`). Of two places the one goes first that goes to the lesser key or position where
they part (`Precedes`). In a value whose objects have rising keys (`IsSorted`), `strings` lists every
string once, in the order of the places (`mem_strings`, `pairwise_strings`), and so does whatever is
picked from this list, which is what `Enumerates` says.
-/

namespace GodotLint.Json

/-- A proof for all values, from the parts of arrays and objects. -/
@[elab_as_elim]
theorem induct {P : Json → Prop} (null : P .null) (bool : ∀ b, P (.bool b)) (num : ∀ n, P (.num n))
    (str : ∀ s, P (.str s)) (arr : ∀ items, (∀ v ∈ items, P v) → P (.arr items))
    (obj : ∀ members, (∀ entry ∈ members, P entry.2) → P (.obj members)) (v : Json) : P v :=
  @Json.rec P (fun items => ∀ v ∈ items, P v) (fun members => ∀ entry ∈ members, P entry.2)
    (fun entry => P entry.2) null bool num str arr obj (fun _ h => absurd h List.not_mem_nil)
    (fun _ _ hv hrest => List.forall_mem_cons.mpr ⟨hv, hrest⟩)
    (fun _ h => absurd h List.not_mem_nil)
    (fun _ _ hentry hrest => List.forall_mem_cons.mpr ⟨hentry, hrest⟩) (fun _ _ hv => hv) v

/-! ## Places -/

/-- A step into a value. -/
inductive Step where
  /-- To the member of an object. -/
  | member (key : String)
  /-- To the item of an array. -/
  | item (i : Nat)
  deriving DecidableEq, Repr

/-- Whether a step goes to an earlier part. -/
def Step.Before : Step → Step → Prop
  | .member key, .member key' => key < key'
  | .item i, .item j => i < j
  | _, _ => False

/-- The part of a value to which a step leads. -/
def child? : Json → Step → Option Json
  | .obj members, .member key => members.lookup key
  | .arr items, .item i => items[i]?
  | _, _ => none

/-- The part of a value at a place. -/
def at? : Json → List Step → Option Json
  | v, [] => some v
  | v, step :: rest => (v.child? step).bind (at? · rest)

/-- A place goes before another if it takes an earlier step where the two part. -/
def Precedes (p q : List Step) : Prop :=
  ∃ common s t p' q', p = common ++ s :: p' ∧ q = common ++ t :: q' ∧ s.Before t

/-- The objects of a value have rising keys. -/
inductive IsSorted : Json → Prop
  | null : IsSorted .null
  | bool (b : Bool) : IsSorted (.bool b)
  | num (n : JsonNumber) : IsSorted (.num n)
  | str (s : String) : IsSorted (.str s)
  | arr {items : List Json} (h : ∀ v ∈ items, IsSorted v) : IsSorted (.arr items)
  | obj {members : List (String × Json)} (hkeys : (members.map (·.1)).Pairwise (· < ·))
      (h : ∀ entry ∈ members, IsSorted entry.2) : IsSorted (.obj members)

variable {v : Json} {items : List Json} {members : List (String × Json)} {p q : List Step} {s t : Step}
  {value : String} {α : Type}

theorem Precedes.cons (s : Step) (h : Precedes p q) : Precedes (s :: p) (s :: q) := by
  obtain ⟨common, s', t', p', q', rfl, rfl, hbefore⟩ := h
  exact ⟨s :: common, s', t', p', q', rfl, rfl, hbefore⟩

theorem precedes_of_before (h : s.Before t) (p q : List Step) : Precedes (s :: p) (t :: q) :=
  ⟨[], s, t, p, q, rfl, rfl, h⟩

/-- A place does not go before itself. -/
theorem ne_of_precedes (h : Precedes p q) : p ≠ q := by
  obtain ⟨common, s, t, p', q', rfl, rfl, hbefore⟩ := h
  intro heq
  obtain ⟨rfl, -⟩ := List.cons.inj (List.append_cancel_left heq)
  cases s with
  | member key => exact lt_irrefl key hbefore
  | item i => exact lt_irrefl i hbefore

/-! ## Parts of objects and arrays -/

section Parts

variable {w : Json} {key : String} {i : Nat}

theorem at?_cons (v : Json) (step : Step) (p : List Step) :
    v.at? (step :: p) = (v.at? [step]).bind (·.at? p) := by
  simp [at?]

/-- Only an object has members. -/
theorem exists_obj_of_at? (h : v.at? (.member key :: p) = some w) : ∃ members, v = .obj members := by
  cases v with
  | obj members => exact ⟨members, rfl⟩
  | _ => cases h

/-- Only an array has items. -/
theorem exists_arr_of_at? (h : v.at? (.item i :: p) = some w) : ∃ items, v = .arr items := by
  cases v with
  | arr items => exact ⟨items, rfl⟩
  | _ => cases h

theorem str?_eq_some_iff {s : String} : v.str? = some s ↔ v = .str s := by
  cases v <;> simp [str?]

theorem at?_obj_member (members : List (String × Json)) (key : String) :
    (Json.obj members).at? [.member key] = members.lookup key := by
  simp [at?, child?]

theorem at?_arr_item (items : List Json) (i : Nat) : (Json.arr items).at? [.item i] = items[i]? := by
  simp [at?, child?]

/-- The keys of an object are those of its members. -/
theorem exists_at?_member : (∃ v, (Json.obj members).at? [.member key] = some v) ↔
    key ∈ members.map (·.1) := by
  have h := SortedMap.get?_eq_none_iff (m := ⟨members⟩) (k := key)
  rw [← not_iff_not, at?_obj_member, ← Option.ne_none_iff_exists', not_not]
  exact h

theorem at?_member_eq_member? (v : Json) (key : String) : v.at? [.member key] = v.member? key := by
  cases v <;> simp [at?, child?, member?]

end Parts

/-! ## Strings -/

mutual

/-- The strings of a value with their places. -/
def strings : Json → List (List Step × String)
  | .str s => [([], s)]
  | .arr items => itemStrings 0 items
  | .obj members => memberStrings members
  | _ => []

/-- The strings of items, the first of which is at position `i`. -/
def itemStrings (i : Nat) : List Json → List (List Step × String)
  | [] => []
  | v :: rest => (strings v).map (fun (p, s) => (.item i :: p, s)) ++ itemStrings (i + 1) rest

/-- The strings of members. -/
def memberStrings : List (String × Json) → List (List Step × String)
  | [] => []
  | (key, v) :: rest => (strings v).map (fun (p, s) => (.member key :: p, s)) ++ memberStrings rest

end

theorem mem_itemStrings {i : Nat} : (p, value) ∈ itemStrings i items ↔
    ∃ k v q, items[k]? = some v ∧ p = .item (i + k) :: q ∧ (q, value) ∈ v.strings := by
  induction items generalizing i with
  | nil => simp [itemStrings]
  | cons v rest ih =>
      rw [itemStrings, List.mem_append, ih, List.mem_map]
      constructor
      · rintro (⟨⟨q, s⟩, hq, heq⟩ | ⟨k, w, q, hw, rfl, hq⟩)
        · cases heq
          exact ⟨0, v, q, rfl, rfl, hq⟩
        · exact ⟨k + 1, w, q, hw, by rw [Nat.add_assoc, Nat.add_comm 1], hq⟩
      · rintro ⟨k, w, q, hw, rfl, hq⟩
        cases k with
        | zero =>
            cases hw
            exact .inl ⟨(q, value), hq, rfl⟩
        | succ k => exact .inr ⟨k, w, q, hw, by rw [Nat.add_assoc, Nat.add_comm 1], hq⟩

theorem mem_memberStrings : (p, value) ∈ memberStrings members ↔
    ∃ key v q, (key, v) ∈ members ∧ p = .member key :: q ∧ (q, value) ∈ v.strings := by
  induction members with
  | nil => simp [memberStrings]
  | cons entry rest ih =>
      obtain ⟨key, v⟩ := entry
      rw [memberStrings, List.mem_append, ih, List.mem_map]
      constructor
      · rintro (⟨⟨q, s⟩, hq, heq⟩ | ⟨k, w, q, hw, rfl, hq⟩)
        · cases heq
          exact ⟨key, v, q, List.mem_cons_self, rfl, hq⟩
        · exact ⟨k, w, q, List.mem_cons_of_mem _ hw, rfl, hq⟩
      · rintro ⟨k, w, q, hw, rfl, hq⟩
        rcases List.mem_cons.mp hw with heq | hw
        · cases heq
          exact .inl ⟨(q, value), hq, rfl⟩
        · exact .inr ⟨k, w, q, hw, rfl, hq⟩

/-- In an object with rising keys, every member is found by its key. -/
theorem lookup_eq_some_iff {key : String} (hkeys : (members.map (·.1)).Pairwise (· < ·)) :
    members.lookup key = some v ↔ (key, v) ∈ members := by
  constructor
  · exact fun h => SortedMap.mem_entries_of_get? (m := ⟨members⟩) h
  · intro h
    induction members with
    | nil => cases h
    | cons entry rest ih =>
        obtain ⟨hfirst, hrest⟩ := List.pairwise_cons.mp hkeys
        rcases List.mem_cons.mp h with rfl | h
        · exact List.lookup_cons_self
        · have hlater : entry.1 < key := hfirst key (List.mem_map_of_mem h)
          rw [List.lookup_cons, beq_false_of_ne hlater.ne', ih hrest h]

theorem at?_cons_eq_some_iff : v.at? (s :: p) = some (.str value) ↔
    ∃ w, v.child? s = some w ∧ w.at? p = some (.str value) := by
  rw [at?, Option.bind_eq_some_iff]

/-- **The strings of a value are those at its places.** -/
theorem mem_strings (h : v.IsSorted) : (p, value) ∈ v.strings ↔ v.at? p = some (.str value) := by
  induction h generalizing p with
  | null => cases p <;> simp [strings, at?, child?]
  | bool b => cases p <;> simp [strings, at?, child?]
  | num n => cases p <;> simp [strings, at?, child?]
  | str s => cases p <;> simp [strings, at?, child?, eq_comm]
  | @arr items h ih =>
      rw [strings, mem_itemStrings]
      constructor
      · rintro ⟨k, v, q, hk, rfl, hq⟩
        rw [at?_cons_eq_some_iff, Nat.zero_add]
        exact ⟨v, hk, (ih v (List.mem_of_getElem? hk)).mp hq⟩
      · intro hat
        cases p with
        | nil => simp [at?] at hat
        | cons s q =>
            obtain ⟨v, hv, hq⟩ := at?_cons_eq_some_iff.mp hat
            cases s with
            | member key => cases hv
            | item k =>
                have hk : items[k]? = some v := hv
                exact ⟨k, v, q, hk, by rw [Nat.zero_add], (ih v (List.mem_of_getElem? hk)).mpr hq⟩
  | @obj members hkeys h ih =>
      rw [strings, mem_memberStrings]
      constructor
      · rintro ⟨key, v, q, hmem, rfl, hq⟩
        rw [at?_cons_eq_some_iff]
        exact ⟨v, (lookup_eq_some_iff hkeys).mpr hmem, (ih _ hmem).mp hq⟩
      · intro hat
        cases p with
        | nil => simp [at?] at hat
        | cons s q =>
            obtain ⟨v, hv, hq⟩ := at?_cons_eq_some_iff.mp hat
            cases s with
            | item k => cases hv
            | member key =>
                have hmem := (lookup_eq_some_iff hkeys).mp hv
                exact ⟨key, v, q, hmem, rfl, (ih _ hmem).mpr hq⟩

/-! ## The order of the strings -/

theorem pairwise_map_cons {found : List (List Step × String)} (s : Step)
    (h : (found.map (·.1)).Pairwise Precedes) :
    ((found.map fun (p, value) => (s :: p, value)).map (·.1)).Pairwise Precedes := by
  rw [List.map_map, List.pairwise_map] at *
  exact h.imp (Precedes.cons s)

theorem pairwise_itemStrings {i : Nat} (h : ∀ v ∈ items, (v.strings.map (·.1)).Pairwise Precedes) :
    ((itemStrings i items).map (·.1)).Pairwise Precedes := by
  induction items generalizing i with
  | nil => exact .nil
  | cons v rest ih =>
      obtain ⟨hv, hrest⟩ := List.forall_mem_cons.mp h
      rw [itemStrings, List.map_append, List.pairwise_append]
      refine ⟨pairwise_map_cons _ hv, ih hrest, ?_⟩
      simp only [List.mem_map]
      rintro _ ⟨_, ⟨⟨p, x⟩, -, rfl⟩, rfl⟩ _ ⟨⟨q, y⟩, hq, rfl⟩
      obtain ⟨k, w, q, -, rfl, -⟩ := mem_itemStrings.mp hq
      exact precedes_of_before (s := .item i) (t := .item (i + 1 + k)) (by change i < _; omega) p q

theorem pairwise_memberStrings (hkeys : (members.map (·.1)).Pairwise (· < ·))
    (h : ∀ entry ∈ members, (entry.2.strings.map (·.1)).Pairwise Precedes) :
    ((memberStrings members).map (·.1)).Pairwise Precedes := by
  induction members with
  | nil => exact .nil
  | cons entry rest ih =>
      obtain ⟨hv, hrest⟩ := List.forall_mem_cons.mp h
      obtain ⟨hfirst, hkeys⟩ := List.pairwise_cons.mp hkeys
      rw [memberStrings, List.map_append, List.pairwise_append]
      refine ⟨pairwise_map_cons _ hv, ih hkeys hrest, ?_⟩
      simp only [List.mem_map]
      rintro _ ⟨_, ⟨⟨p, x⟩, -, rfl⟩, rfl⟩ _ ⟨⟨q, y⟩, hq, rfl⟩
      obtain ⟨key, w, q, hmem, rfl, -⟩ := mem_memberStrings.mp hq
      have hlater : entry.1 < key := hfirst key (List.mem_map_of_mem hmem)
      exact precedes_of_before (s := .member entry.1) (t := .member key) hlater p q

/-- **The strings of a value come in the order of their places.** -/
theorem pairwise_strings (h : v.IsSorted) : (v.strings.map (·.1)).Pairwise Precedes := by
  induction h with
  | null => exact .nil
  | bool b => exact .nil
  | num n => exact .nil
  | str s => exact List.pairwise_singleton _ _
  | arr h ih => exact pairwise_itemStrings ih
  | obj hkeys h ih => exact pairwise_memberStrings hkeys ih

/-! ## What is picked from the strings -/

/-- A list has what a property says of the places of a value, each place once and in order. -/
def Enumerates (found : List α) (property : List Step → α → Prop) : Prop :=
  ∃ places : List (List Step), places.Pairwise Precedes ∧ places.Nodup ∧
    List.Forall₂ property places found ∧ ∀ p x, property p x → p ∈ places

/-- What is picked from the strings of a value comes in the order of the places. -/
theorem enumerates_filterMap {pick : List Step × String → Option α}
    {property : List Step → α → Prop} (hv : v.IsSorted)
    (h : ∀ p x, property p x ↔ ∃ value, v.at? p = some (.str value) ∧ pick (p, value) = some x) :
    Enumerates (v.strings.filterMap pick) property := by
  have hordered : ((v.strings.filter fun x => (pick x).isSome).map (·.1)).Pairwise Precedes :=
    (pairwise_strings hv).sublist (List.filter_sublist.map _)
  refine ⟨_, hordered, hordered.imp ne_of_precedes, SortedMap.forall₂_filterMap ?_, ?_⟩
  · rintro ⟨p, value⟩ hmem x hx
    exact (h p x).mpr ⟨value, (mem_strings hv).mp hmem, hx⟩
  · intro p x hx
    obtain ⟨value, hvalue, hpick⟩ := (h p x).mp hx
    refine List.mem_map.mpr ⟨(p, value), List.mem_filter.mpr ⟨(mem_strings hv).mpr hvalue, ?_⟩, rfl⟩
    rw [hpick]
    rfl

end GodotLint.Json

/-!
## What is read

A reader of JSON puts the members of an object into a sorted map one after the other, so that the objects
of every document that is read have rising keys (`isSorted_of_read`), and of a key that occurs again the
last value is kept. A property of what a part of the reader gives is carried through the others by
`Yields`.
-/

namespace GodotLint.Json

namespace Reader

variable {α β : Type} {x : Reader α} {f : α → Reader β} {P : α → Prop} {Q : β → Prop}

/-- Whatever a part of the reader gives has a property. -/
def Yields (x : Reader α) (P : α → Prop) : Prop := ∀ s a s', x s = .ok (a, s') → P a

theorem Yields.pure {a : α} (h : P a) : Yields (pure a) P := by
  rintro s _ _ ⟨⟩
  exact h

theorem Yields.bind (hx : Yields x P) (hf : ∀ a, P a → Yields (f a) Q) : Yields (x >>= f) Q := by
  intro s b s' h
  change (x s >>= fun r => f r.1 r.2) = .ok (b, s') at h
  cases hrun : x s with
  | error fault => simp [hrun, Bind.bind, Except.bind] at h
  | ok r =>
      obtain ⟨a, s₁⟩ := r
      rw [hrun] at h
      exact hf a (hx s a s₁ hrun) s₁ b s' h

/-- What comes before does not matter. -/
theorem Yields.after (hf : ∀ a, Yields (f a) Q) : Yields (x >>= f) Q :=
  .bind (P := fun _ => True) (fun _ _ _ _ => trivial) fun a _ => hf a

theorem yields_failAfter {bytes : Nat} {cause : Cause} : Yields (failAfter bytes cause) P := by
  intro s a s' h
  cases h

/-- The members that were read have rising keys and sorted values. -/
structure IsSortedMap (m : SortedMap Json) : Prop where
  keys : m.keys.Pairwise (· < ·)
  values : ∀ entry ∈ m.entries, entry.2.IsSorted

theorem IsSortedMap.insert {m : SortedMap Json} {key : String} {v : Json} (hm : IsSortedMap m)
    (hv : v.IsSorted) : IsSortedMap (m.insert key v) where
  keys := SortedMap.pairwise_keys_alter hm.keys
  values := SortedMap.forall_alter (P := IsSorted) hv (fun _ _ => hv) hm.values

/-- What the parts of the reader give with some fuel. -/
structure YieldsSorted (fuel : Nat) : Prop where
  value : ∀ depth, Yields (value fuel depth) IsSorted
  items : ∀ depth first, Yields (items fuel depth first) fun items => ∀ v ∈ items, v.IsSorted
  members : ∀ depth first before, IsSortedMap before →
    Yields (members fuel depth first before) IsSortedMap
  member : ∀ depth before, IsSortedMap before → Yields (member fuel depth before) IsSortedMap

variable {fuel : Nat}

theorem YieldsSorted.value_succ (h : YieldsSorted fuel) (depth : Nat) :
    Yields (Reader.value (fuel + 1) depth) IsSorted := by
  unfold Reader.value
  refine .after fun c => ?_
  cases c with
  | none => exact yields_failAfter
  | some c =>
      dsimp only
      split_ifs
      · exact .after fun _ => .after fun _ => .pure .null
      · exact .after fun _ => .after fun _ => .pure (.bool true)
      · exact .after fun _ => .after fun _ => .pure (.bool false)
      · exact .after fun _ => .after fun n => .pure (.num n)
      · exact .after fun n => .pure (.num n)
      · exact .after fun _ => .after fun s => .pure (.str s)
      · cases depth with
        | zero => exact yields_failAfter
        | succ depth =>
            exact .after fun _ => .bind (h.items depth true) fun items hitems => .pure (.arr hitems)
      · cases depth with
        | zero => exact yields_failAfter
        | succ depth =>
            have hempty : IsSortedMap .empty := ⟨.nil, fun _ h => absurd h List.not_mem_nil⟩
            exact .after fun _ => .bind (h.members depth true .empty hempty) fun m hm =>
              .pure (.obj hm.keys hm.values)
      · exact yields_failAfter

theorem YieldsSorted.items_succ (h : YieldsSorted fuel) (depth : Nat) (first : Bool) :
    Yields (Reader.items (fuel + 1) depth first) fun items => ∀ v ∈ items, v.IsSorted := by
  have hrest : ∀ v, v.IsSorted → Yields (do return v :: (← Reader.items fuel depth false))
      fun items => ∀ v ∈ items, v.IsSorted := fun v hv =>
    .bind (h.items depth false) fun items hitems => .pure (List.forall_mem_cons.mpr ⟨hv, hitems⟩)
  unfold Reader.items
  refine .after fun c => ?_
  cases c with
  | none => exact yields_failAfter
  | some c =>
      dsimp only
      split_ifs
      · exact .after fun _ => .pure fun _ h => absurd h List.not_mem_nil
      · exact .bind (h.value depth) hrest
      · refine .after fun _ => .after fun c => ?_
        split
        · exact yields_failAfter
        · exact yields_failAfter
        · exact .bind (h.value depth) hrest
      · exact yields_failAfter

theorem YieldsSorted.members_succ (h : YieldsSorted fuel) (depth : Nat) (first : Bool)
    {before : SortedMap Json} (hbefore : IsSortedMap before) :
    Yields (Reader.members (fuel + 1) depth first before) IsSortedMap := by
  unfold Reader.members
  refine .after fun c => ?_
  cases c with
  | none => exact yields_failAfter
  | some c =>
      dsimp only
      split_ifs
      · exact .after fun _ => .pure hbefore
      · exact h.member depth before hbefore
      · exact yields_failAfter
      · refine .after fun _ => .after fun c => ?_
        split
        · exact yields_failAfter
        · exact h.member depth before hbefore
        · exact yields_failAfter
        · exact yields_failAfter
      · exact yields_failAfter

theorem YieldsSorted.member_succ (h : YieldsSorted fuel) (depth : Nat)
    {before : SortedMap Json} (hbefore : IsSortedMap before) :
    Yields (Reader.member (fuel + 1) depth before) IsSortedMap := by
  unfold Reader.member
  refine .after fun _ => .after fun key => .after fun c => ?_
  cases c with
  | none => exact yields_failAfter
  | some c =>
      dsimp only
      split_ifs
      · exact .after fun _ => .bind (h.value depth) fun v hv =>
          h.members depth false _ (hbefore.insert hv)
      · exact yields_failAfter

/-- **What the parts of the reader give has rising keys**, by induction on the fuel. -/
theorem yieldsSorted (fuel : Nat) : YieldsSorted fuel := by
  induction fuel with
  | zero =>
      constructor
      · unfold Reader.value
        exact fun _ => yields_failAfter
      · unfold Reader.items
        exact fun _ _ => yields_failAfter
      · unfold Reader.members
        exact fun _ _ _ _ => yields_failAfter
      · unfold Reader.member
        exact fun _ _ _ => yields_failAfter
  | succ fuel ih =>
      exact ⟨ih.value_succ, ih.items_succ, fun depth first _ => ih.members_succ depth first,
        fun depth _ => ih.member_succ depth⟩

theorem yields_document : Yields document IsSorted := by
  unfold document
  refine .after fun n => .bind ((yieldsSorted _).value _) fun v hv => .after fun c => ?_
  cases c with
  | none => exact .pure hv
  | some c => exact yields_failAfter

end Reader

/-- **A document that is read has rising keys.** -/
theorem isSorted_of_read {s : List Char} {document : Json} (h : read s = .ok document) :
    document.IsSorted := by
  unfold read at h
  split at h
  next v rest hrun =>
    cases h
    exact Reader.yields_document _ _ _ hrun
  next => cases h

end GodotLint.Json
