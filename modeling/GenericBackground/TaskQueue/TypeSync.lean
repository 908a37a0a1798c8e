import GenericBackground.TaskQueue.TypeRegistry

/-!
# Task type records

`_sync_from_python_registry` writes a record for every type code. It reads the attributes from the
first class in the list of definitions, which is the newest definition or, if the merged class has
been built since, that class.

A definition that leaves an attribute to the definitions it extends has the default of
`AbstractTaskType` instead of theirs. So the records agree with the merged classes exactly where
this makes no difference (`NewestDecides`).
-/

namespace GenericTaskQueue

/-- What `_sync_type` writes for a task type. -/
structure TaskTypeValues where
  module : String
  notifyOnCompletion : Bool := false
  propagateProgress : Bool := false
  defaultRetryPolicy : RetryPolicyName := .canonical .noRetry
  defaultMaxRetries : ℤ := 0
  serviceName : String := ""
  defaultChannel : Channel := "default"

/-- A row of `generic.task.queue.task.type`. -/
structure TaskTypeRecord extends TaskTypeValues where
  name : String
  active : Bool := true

/-- `_sync_type`: the name is set on the insert only. -/
def syncType (table : Dict TypeCode TaskTypeRecord) (code : TypeCode) (values : TaskTypeValues)
    (name : Option String := none) : Dict TypeCode TaskTypeRecord :=
  table.set code
    { values with
      name := ((table.get code).map TaskTypeRecord.name).getD ((name.filter (· ≠ "")).getD code) }

def moduleOf (path : String) : String := ((path.splitOn ".")[2]?).getD ""

def strOr (s : Option String) (default : String) : String := (s.filter (· ≠ "")).getD default

/-- The attributes that the sync reads. -/
def Attr.synced : Attr → Bool
  | .name | .other _ => false
  | _ => true

namespace TaskTypeRegistry

variable {ν : Type}

/-- What the sync reads of a class; an attribute that is missing is an AttributeError. -/
def syncedValues (r : TaskTypeRegistry ν) (cls : ClassId) : Option TaskTypeValues := do
  let path ← (r.classes.get cls).map PyClass.module
  let notifyOnCompletion ← r.getattr cls .notifyOnCompletion
  let propagateProgress ← r.getattr cls .propagateProgress
  let retryPolicy ← r.getattr cls .retryPolicy
  let maxRetries ← r.getattr cls .maxRetries
  let serviceName ← r.getattr cls .serviceName
  let defaultChannel ← r.getattr cls .defaultChannel
  return {
    module := moduleOf path
    notifyOnCompletion := notifyOnCompletion
    propagateProgress := propagateProgress
    defaultRetryPolicy := retryPolicy
    defaultMaxRetries := maxRetries
    serviceName := strOr serviceName ""
    defaultChannel := strOr defaultChannel "default" }

/-- The sync of one type code. -/
def syncDefs (r : TaskTypeRegistry ν) (table : Dict TypeCode TaskTypeRecord)
    (entry : TypeCode × List ClassId) : Option (Dict TypeCode TaskTypeRecord) := do
  let cls ← entry.2.head?
  let values ← r.syncedValues cls
  return syncType table entry.1 values

/-- `_sync_from_python_registry`; `none` is an error. -/
def syncFromPythonRegistry (r : TaskTypeRegistry ν) (table : Dict TypeCode TaskTypeRecord) :
    Option (Dict TypeCode TaskTypeRecord) := r.registeredTypes.items.foldlM r.syncDefs table

end TaskTypeRegistry

/-- The record says what the class says. An empty service name stands for no service. -/
structure TaskTypeRecord.Agrees {ν : Type} (row : TaskTypeRecord) (r : TaskTypeRegistry ν)
    (cls : ClassId) : Prop where
  notifyOnCompletion : r.getattr cls .notifyOnCompletion = some row.notifyOnCompletion
  propagateProgress : r.getattr cls .propagateProgress = some row.propagateProgress
  defaultRetryPolicy : r.getattr cls .retryPolicy = some row.defaultRetryPolicy
  defaultMaxRetries : r.getattr cls .maxRetries = some row.defaultMaxRetries
  serviceName : (r.getattr cls .serviceName).map (strOr · "") = some row.serviceName
  defaultChannel : r.getattr cls .defaultChannel = some (some row.defaultChannel)

namespace TaskTypeRegistry

variable {ν : Type} {r r' : TaskTypeRegistry ν} {c d : ClassId} {L post : List ClassId}
  {code name : TypeCode} {a : Attr} {es : List (RegistryEv ν)}
  {abstract abc object : String → Option ν} {ds : List (String × ClassBody ν)}

/-! ## The condition -/

/-- The newest definition sets the attribute, or the older ones leave it at its default. -/
def Decided (r : TaskTypeRegistry ν) (defs : List ClassId) (a : Attr) : Prop :=
  (∃ d ∈ defs.head?, (r.body d a).isSome = true) ∨
    r.lookup (defs.tail ++ baseChain) a = abstractBody (fun _ => none) a

/-- The newest of the definitions decides what the sync reads. For the service name it is enough
that the older definitions give an empty one. -/
structure NewestDecides (r : TaskTypeRegistry ν) (defs : List ClassId) : Prop where
  notifyOnCompletion : r.Decided defs .notifyOnCompletion
  propagateProgress : r.Decided defs .propagateProgress
  retryPolicy : r.Decided defs .retryPolicy
  maxRetries : r.Decided defs .maxRetries
  serviceName : (∃ d ∈ defs.head?, (r.body d .serviceName).isSome = true) ∨
    (r.lookup (defs.tail ++ baseChain) .serviceName).map (strOr · "") = some ""
  defaultChannel : r.Decided defs .defaultChannel

/-- The definitions have a channel, and not the empty one. -/
def HasChannel (r : TaskTypeRegistry ν) (defs : List ClassId) : Prop :=
  ∃ ch : Channel, ch ≠ "" ∧ r.lookup (defs ++ baseChain) .defaultChannel = some (some ch)

/-! ## The records -/

@[simp] theorem get_syncType (table : Dict TypeCode TaskTypeRecord) (values : TaskTypeValues) :
    ((syncType table code values).get name).map TaskTypeRecord.toTaskTypeValues =
      if name = code then some values
      else (table.get name).map TaskTypeRecord.toTaskTypeValues := by
  unfold syncType
  rw [Dict.get_set]
  split <;> rfl

theorem foldlM_syncDefs : ∀ {items : List (TypeCode × List ClassId)}
    (table : Dict TypeCode TaskTypeRecord), (items.map Prod.fst).Nodup →
    (∀ p ∈ items, ∃ c values, p.2.head? = some c ∧ r.syncedValues c = some values) →
    ∃ table', items.foldlM r.syncDefs table = some table' ∧
      (∀ p ∈ items, ∃ c, p.2.head? = some c ∧
        (table'.get p.1).map TaskTypeRecord.toTaskTypeValues = r.syncedValues c) ∧
      ∀ code ∉ items.map Prod.fst, (table'.get code).map TaskTypeRecord.toTaskTypeValues =
        (table.get code).map TaskTypeRecord.toTaskTypeValues := by
  intro items
  induction items with
  | nil => exact fun table _ _ => ⟨table, rfl, by simp, fun _ _ => rfl⟩
  | cons p items ih =>
    intro table hnd hval
    obtain ⟨hp, hnd⟩ := List.nodup_cons.1 hnd
    obtain ⟨c, values, hc, hv⟩ := hval p List.mem_cons_self
    have hstep : r.syncDefs table p = some (syncType table p.1 values) := by
      simp [syncDefs, hc, hv]
    obtain ⟨table', hfold, hrows, hkept⟩ := ih (syncType table p.1 values) hnd
      fun q hq => hval q (List.mem_cons_of_mem _ hq)
    refine ⟨table', by rw [List.foldlM_cons, hstep]; exact hfold, fun q hq => ?_,
      fun code hcode => ?_⟩
    · rcases List.mem_cons.1 hq with rfl | hq
      · refine ⟨c, hc, ?_⟩
        rw [hkept _ hp, get_syncType, if_pos rfl, hv]
      · exact hrows q hq
    · simp only [List.map_cons, List.mem_cons, not_or] at hcode
      rw [hkept code hcode.2, get_syncType, if_neg hcode.1]

/-! ## What the sync reads and what the class says -/

theorem lookup_append (K M : List ClassId) :
    r.lookup (K ++ M) a = (r.lookup K a).or (r.lookup M a) := List.findSome?_append

theorem lookup_cons (c : ClassId) (K : List ClassId) :
    r.lookup (c :: K) a = (r.body c a).or (r.lookup K a) := by
  simp only [lookup, List.findSome?_cons]
  cases r.body c a <;> rfl

theorem Made.lookup_default (h : Made (initial abstract abc object) ds r) (ha : a.synced = true) :
    r.lookup baseChain a = abstractBody (fun _ => none) a := by
  rw [h.lookup_base]
  cases a with
  | name | other => cases ha
  | _ => simp [lookup, baseChain, body, initial, abstractBody]

theorem abstractBody_isSome (ha : a.synced = true) :
    (abstractBody (fun _ => none) a : Option (a.Val ν)).isSome = true := by
  cases a with
  | name | other => cases ha
  | _ => rfl

/-- A class below `AbstractTaskType` has all that the sync reads. -/
theorem Made.lookup_isSome (h : Made (initial abstract abc object) ds r) (K : List ClassId)
    (ha : a.synced = true) : ∃ v, r.lookup (K ++ baseChain) a = some v := by
  rw [← Option.isSome_iff_exists, lookup_append, h.lookup_default ha, Option.isSome_or,
    abstractBody_isSome ha, Bool.or_true]

theorem Made.syncedValues (h : Made (initial abstract abc object) ds r) {K : List ClassId}
    (hc : c ∈ r.classes.keys) (hK : ∀ a, r.getattr c a = r.lookup (K ++ baseChain) a) :
    ∃ values, r.syncedValues c = some values := by
  obtain ⟨cls, hcls⟩ := Dict.mem_keys_iff.1 hc
  have hsome : ∀ a : Attr, a.synced = true → ∃ v, r.getattr c a = some v := by
    intro a ha
    rw [hK]
    exact h.lookup_isSome K ha
  obtain ⟨v₁, h₁⟩ := hsome .notifyOnCompletion rfl
  obtain ⟨v₂, h₂⟩ := hsome .propagateProgress rfl
  obtain ⟨v₃, h₃⟩ := hsome .retryPolicy rfl
  obtain ⟨v₄, h₄⟩ := hsome .maxRetries rfl
  obtain ⟨v₅, h₅⟩ := hsome .serviceName rfl
  obtain ⟨v₆, h₆⟩ := hsome .defaultChannel rfl
  simp [TaskTypeRegistry.syncedValues, hcls, h₁, h₂, h₃, h₄, h₅, h₆]

theorem agrees_iff_same {row : TaskTypeRecord}
    (hrow : r.syncedValues c = some row.toTaskTypeValues) : row.Agrees r' d ↔
      r'.getattr d .notifyOnCompletion = r.getattr c .notifyOnCompletion ∧
      r'.getattr d .propagateProgress = r.getattr c .propagateProgress ∧
      r'.getattr d .retryPolicy = r.getattr c .retryPolicy ∧
      r'.getattr d .maxRetries = r.getattr c .maxRetries ∧
      (r'.getattr d .serviceName).map (strOr · "") = (r.getattr c .serviceName).map (strOr · "") ∧
      r'.getattr d .defaultChannel =
        (r.getattr c .defaultChannel).map fun ch => some (strOr ch "default") := by
  simp only [syncedValues, Option.bind_eq_bind, Option.bind_eq_some_iff, Option.pure_def,
    Option.some.injEq] at hrow
  obtain ⟨path, -, v₁, h₁, v₂, h₂, v₃, h₃, v₄, h₄, v₅, h₅, v₆, h₆, hrow⟩ := hrow
  rw [h₁, h₂, h₃, h₄, h₅, h₆]
  constructor
  · rintro ⟨g₁, g₂, g₃, g₄, g₅, g₆⟩
    rw [← hrow] at g₁ g₂ g₃ g₄ g₅ g₆
    exact ⟨g₁, g₂, g₃, g₄, g₅, g₆⟩
  · rintro ⟨g₁, g₂, g₃, g₄, g₅, g₆⟩
    constructor <;> rw [← hrow]
    · exact g₁
    · exact g₂
    · exact g₃
    · exact g₄
    · exact g₅
    · exact g₆

theorem or_eq_or_iff {α : Type} {x y z : Option α} :
    x.or y = x.or z ↔ x.isSome = true ∨ y = z := by
  cases x <;> simp

theorem map_or_iff {α β : Type} {f : α → β} {x y z : Option α} :
    (x.or y).map f = (x.or z).map f ↔ x.isSome = true ∨ y.map f = z.map f := by
  cases x <;> simp

theorem strOr_some {ch default : String} (hne : ch ≠ "") : strOr (some ch) default = ch := by
  simp [strOr, Option.filter, hne]

/-- The channel that the sync writes is the one it reads, unless it reads none. -/
theorem channel_kept_iff {x : Option (Option Channel)} :
    x = x.map (fun ch => some (strOr ch "default")) ∧ x ≠ none ↔
      ∃ ch, ch ≠ "" ∧ x = some (some ch) := by
  constructor
  · rintro ⟨h, hne⟩
    cases x with
    | none => exact absurd rfl hne
    | some y =>
      have hy : y = some (strOr y "default") := Option.some.inj h
      refine ⟨strOr y "default", fun hem => ?_, h⟩
      rw [hem] at hy
      rw [hy] at hem
      revert hem
      decide
  · rintro ⟨ch, hne, rfl⟩
    simp [strOr_some hne]

theorem Ok.newest (h : Ok (initial abstract abc object) ds r)
    (hL : r.registeredTypes.get code = some (c :: post)) :
    r.initializedTypes.get code = some c ∧ r.ResolvesAs c (declaring code ds ++ baseChain) ∨
    r.initializedTypes.get code = none ∧ (∃ older, declaring code ds = c :: older) ∧
      ∀ a, r.getattr c a = r.lookup (c :: baseChain) a := by
  obtain ⟨-, hchain, -⟩ := h.lists code _ hL
  cases hw : c.written with
  | false =>
    have hc := (h.cached code c).2 ⟨hw, post, hL⟩
    exact .inl ⟨hc, h.resolves hc⟩
  | true =>
    refine .inr ⟨?_, ⟨post.filter ClassId.written, ?_⟩, fun a => ?_⟩
    · cases hc : r.initializedTypes.get code with
      | none => rfl
      | some k =>
        obtain ⟨hk, post', hL'⟩ := (h.cached code k).1 hc
        obtain rfl : c = k := (List.cons.inj (Option.some.inj (hL.symm.trans hL'))).1
        rw [hw] at hk
        cases hk
    · rw [← h.order code]
      simp [writtenFor, hL, hw]
    · rcases hchain.2.1 with ⟨-, -, hm⟩ | ⟨hw', -, -, -⟩
      · rw [getattr, hm]
      · rw [hw] at hw'
        cases hw'

/-- The definitions say the same as one of them without the others. -/
theorem Made.decided_iff (h : Made (initial abstract abc object) ds r) (ha : a.synced = true)
    (d : ClassId) (older : List ClassId) :
    r.lookup (d :: older ++ baseChain) a = r.lookup (d :: baseChain) a ↔
      r.Decided (d :: older) a := by
  rw [List.cons_append, lookup_cons, lookup_cons, or_eq_or_iff, h.lookup_default ha]
  simp [Decided]

theorem Made.decides_iff (h : Made (initial abstract abc object) ds r) (d : ClassId)
    (older : List ClassId) :
    (r.lookup (d :: older ++ baseChain) .notifyOnCompletion =
        r.lookup (d :: baseChain) .notifyOnCompletion ∧
      r.lookup (d :: older ++ baseChain) .propagateProgress =
        r.lookup (d :: baseChain) .propagateProgress ∧
      r.lookup (d :: older ++ baseChain) .retryPolicy = r.lookup (d :: baseChain) .retryPolicy ∧
      r.lookup (d :: older ++ baseChain) .maxRetries = r.lookup (d :: baseChain) .maxRetries ∧
      (r.lookup (d :: older ++ baseChain) .serviceName).map (strOr · "") =
        (r.lookup (d :: baseChain) .serviceName).map (strOr · "") ∧
      r.lookup (d :: older ++ baseChain) .defaultChannel =
        (r.lookup (d :: baseChain) .defaultChannel).map fun ch => some (strOr ch "default")) ↔
      r.HasChannel (d :: older) ∧ r.NewestDecides (d :: older) := by
  have hservice : (r.lookup (d :: older ++ baseChain) .serviceName).map (strOr · "") =
      (r.lookup (d :: baseChain) .serviceName).map (strOr · "") ↔
      (∃ k ∈ (d :: older).head?, (r.body k .serviceName).isSome = true) ∨
        (r.lookup ((d :: older).tail ++ baseChain) .serviceName).map (strOr · "") = some "" := by
    rw [List.cons_append, lookup_cons, lookup_cons, map_or_iff, h.lookup_default rfl]
    simp [abstractBody, strOr]
  have hchannel : r.lookup (d :: older ++ baseChain) .defaultChannel =
      (r.lookup (d :: baseChain) .defaultChannel).map (fun ch => some (strOr ch "default")) ↔
      r.HasChannel (d :: older) ∧ r.Decided (d :: older) .defaultChannel := by
    obtain ⟨v, hv⟩ := h.lookup_isSome (d :: older) (a := .defaultChannel) rfl
    have hsame : r.lookup (d :: older ++ baseChain) .defaultChannel =
        (r.lookup (d :: baseChain) .defaultChannel).map (fun ch => some (strOr ch "default")) →
        r.lookup (d :: older ++ baseChain) .defaultChannel =
          r.lookup (d :: baseChain) .defaultChannel := by
      rw [List.cons_append, lookup_cons, lookup_cons, h.lookup_default (a := .defaultChannel) rfl]
      cases r.body d .defaultChannel with
      | none => exact fun heq => heq
      | some v => exact fun _ => rfl
    rw [HasChannel, ← channel_kept_iff, ← h.decided_iff rfl]
    constructor
    · intro heq
      have hd := hsame heq
      rw [← hd] at heq
      refine ⟨⟨heq, ?_⟩, hd⟩
      rw [hv]
      exact Option.some_ne_none v
    · rintro ⟨⟨heq, -⟩, hd⟩
      rw [← hd]
      exact heq
  rw [h.decided_iff rfl, h.decided_iff rfl, h.decided_iff rfl, h.decided_iff rfl, hservice,
    hchannel]
  constructor
  · rintro ⟨h1, h2, h3, h4, h5, h6, h7⟩
    exact ⟨h6, h1, h2, h3, h4, h5, h7⟩
  · rintro ⟨h6, h1, h2, h3, h4, h5, h7⟩
    exact ⟨h1, h2, h3, h4, h5, h6, h7⟩

theorem Made.cached_iff (h : Made (initial abstract abc object) ds r) (defs : List ClassId) :
    r.lookup (defs ++ baseChain) .defaultChannel =
      (r.lookup (defs ++ baseChain) .defaultChannel).map (fun ch => some (strOr ch "default")) ↔
    r.HasChannel defs := by
  obtain ⟨v, hv⟩ := h.lookup_isSome defs (a := .defaultChannel) rfl
  rw [HasChannel, ← channel_kept_iff, hv]
  simp

/-- **Synced task type records.** After the sync the record of a type code agrees with the class
that `get_task_type` returns exactly if the definitions have a channel and either that class is in
the cache, or the newest definition decides all that the sync reads. -/
theorem synced_records_agree_iff (abstract abc object : String → Option ν)
    (es : List (RegistryEv ν)) (table : Dict TypeCode TaskTypeRecord) :
    ∃ r table', (initial abstract abc object).calls es = .ok r ∧
      r.syncFromPythonRegistry table = some table' ∧
      ∀ code, definedFor code es ≠ [] →
        ∃ row c r', table'.get code = some row ∧ r.getTaskType code = .ok (c, r') ∧
          (row.Agrees r' c ↔ r.HasChannel (definedFor code es) ∧
            ((∃ m, r.initializedTypes.get code = some m) ∨
              r.NewestDecides (definedFor code es))) := by
  have h0 : Ok (initial abstract abc object) [] (initial abstract abc object) := initial_ok
  obtain ⟨r, hr, h⟩ := h0.calls es
  rw [List.nil_append] at h
  -- the sync reads a value for every code
  have hvals : ∀ p ∈ r.registeredTypes.items,
      ∃ c values, p.2.head? = some c ∧ r.syncedValues c = some values := by
    rintro ⟨code, L⟩ hp
    have hL := Dict.mem_items_iff.1 hp
    obtain ⟨hne, -, hkeys⟩ := h.lists code L hL
    obtain ⟨c, post, rfl⟩ := List.exists_cons_of_ne_nil hne
    have hc := hkeys c List.mem_cons_self
    rcases h.newest hL with ⟨-, hres⟩ | ⟨-, -, hget⟩
    · obtain ⟨values, hv⟩ := h.made.syncedValues hc hres.attrs
      exact ⟨c, values, rfl, hv⟩
    · obtain ⟨values, hv⟩ := h.made.syncedValues (K := [c]) hc hget
      exact ⟨c, values, rfl, hv⟩
  obtain ⟨table', htable, hrows, -⟩ :=
    foldlM_syncDefs table r.registeredTypes.nodup hvals
  refine ⟨r, table', hr, htable, fun code hcode => ?_⟩
  obtain ⟨L, hL⟩ := Dict.mem_keys_iff.1 (h.registered_iff.1 hcode)
  obtain ⟨c, hhead, hrow⟩ := hrows (code, L) (Dict.mem_items_iff.2 hL)
  obtain ⟨values, hv⟩ : ∃ values, r.syncedValues c = some values := by
    obtain ⟨c', values, hc', hv⟩ := hvals (code, L) (Dict.mem_items_iff.2 hL)
    obtain rfl := Option.some.inj (hhead.symm.trans hc')
    exact ⟨values, hv⟩
  rw [hv] at hrow
  obtain ⟨row, hget, rfl⟩ := Option.map_eq_some_iff.1 hrow
  obtain ⟨post, rfl⟩ : ∃ post, L = c :: post := List.head?_eq_some_iff.1 hhead
  obtain ⟨k, r', htype, hok, -, hres⟩ := h.getTaskType_resolves hcode
  have hattr : ∀ a, r'.getattr k a = r.lookup (definedFor code es ++ baseChain) a := by
    intro a
    rw [hres.attrs]
    exact hok.made.lookup_eq h.made code (List.Subset.refl _)
  refine ⟨row, k, r', hget, htype, ?_⟩
  rw [agrees_iff_same hv]
  simp only [hattr]
  rcases h.newest hL with ⟨hc, hres'⟩ | ⟨hc, ⟨older, hdefs⟩, hnew⟩
  · simp only [hres'.attrs, hc]
    have hch := h.made.cached_iff (definedFor code es)
    constructor
    · rintro ⟨-, -, -, -, -, h6⟩
      exact ⟨hch.1 h6, .inl ⟨c, rfl⟩⟩
    · rintro ⟨h6, -⟩
      exact ⟨rfl, rfl, rfl, rfl, rfl, hch.2 h6⟩
  · simp only [hnew, hc]
    rw [show definedFor code es = c :: older from hdefs, h.made.decides_iff c older]
    simp

/-- A definition that asks for notifications, and one that extends it and does not mention them. -/
def extendedType : List (RegistryEv Unit) :=
  let name : Option (Option TypeCode) := some (some "test.task.type.extended")
  [.define "odoo.addons.base_module.service" fun
      | .name => name
      | .notifyOnCompletion => some true
      | _ => none,
    .define "odoo.addons.extension.service" fun
      | .name => name
      | _ => none]

theorem extension_silences_type : ∃ r table row c r',
    (initial (fun _ => none) (fun _ => none) (fun _ => none)).calls extendedType = .ok r ∧
    r.syncFromPythonRegistry .empty = some table ∧
    table.get "test.task.type.extended" = some row ∧
    r.getTaskType "test.task.type.extended" = .ok (c, r') ∧
    row.notifyOnCompletion = false ∧ r'.getattr c .notifyOnCompletion = some true ∧
    ¬ row.Agrees r' c := by
  refine ⟨_, _, _, _, _, rfl, rfl, rfl, rfl, rfl, rfl, fun h => ?_⟩
  have hn : some true = some false := h.notifyOnCompletion
  cases hn

end TaskTypeRegistry

end GenericTaskQueue
