import GenericBackground.Lib.C3
import GenericBackground.Lib.Dict
import GenericBackground.TaskQueue.Task

/-!
# The registry of task types

A task type is defined by one or more classes that declare the same `_name`. `register_type` puts
the newest definition first, and `get_task_type` builds a class that inherits from all of them. That
class has no body, but it is a subclass too: `__init_subclass__` registers it as one more definition
and drops the cache entry, and a later build inherits from it.

The classes that a module has written keep their order nevertheless (`ResolvesAs`): a class built
on the way has the definitions behind it in its own order of resolution, and adds nothing.
-/

namespace GenericTaskQueue

/-! ## Classes -/

/-- The attributes of a class that the sync reads, and every other one by its name. -/
inductive Attr where
  | name
  | notifyOnCompletion
  | propagateProgress
  | retryPolicy
  | maxRetries
  | serviceName
  | defaultChannel
  | other (attr : String)
  deriving DecidableEq, Repr

/-- What an attribute holds. `ν` is for the values of all others, methods included. -/
@[reducible] def Attr.Val (ν : Type) : Attr → Type
  | .name => Option TypeCode
  | .notifyOnCompletion => Bool
  | .propagateProgress => Bool
  | .retryPolicy => RetryPolicyName
  | .maxRetries => ℤ
  | .serviceName => Option String
  | .defaultChannel => Option Channel
  | .other _ => ν

abbrev ClassBody (ν : Type) := (a : Attr) → Option (a.Val ν)

def ClassBody.empty {ν : Type} : ClassBody ν := fun _ => none

/-- The classes: those there are before any task type, the ones that modules define and the ones
that the registry builds, in the order of their creation. -/
inductive ClassId where
  | object
  | abc
  | abstractTaskType
  | definition (k : ℕ)
  | merged (k : ℕ)
  deriving DecidableEq, Repr

/-- The class stands in a module, and is not built by the registry. -/
def ClassId.written : ClassId → Bool
  | .merged _ => false
  | _ => true

/-- A class; `mro` is its `__mro__`. -/
structure PyClass (ν : Type) where
  module : String
  body : ClassBody ν
  mro : List ClassId

/-- `TaskTypeRegistry`, and the classes that the interpreter has created. -/
structure TaskTypeRegistry (ν : Type) where
  classes : Dict ClassId (PyClass ν)
  definitions : ℕ := 0
  merges : ℕ := 0
  registeredTypes : Dict TypeCode (List ClassId) := .empty
  initializedTypes : Dict TypeCode ClassId := .empty

inductive PyError where
  | typeError
  | keyError
  deriving DecidableEq, Repr

namespace TaskTypeRegistry

variable {ν : Type}

def mro (r : TaskTypeRegistry ν) (c : ClassId) : List ClassId :=
  ((r.classes.get c).map PyClass.mro).getD []

def body (r : TaskTypeRegistry ν) (c : ClassId) : ClassBody ν :=
  ((r.classes.get c).map PyClass.body).getD .empty

/-- The first class in a list that sets an attribute decides it. -/
def lookup (r : TaskTypeRegistry ν) (chain : List ClassId) (a : Attr) : Option (a.Val ν) :=
  chain.findSome? fun c => r.body c a

def getattr (r : TaskTypeRegistry ν) (c : ClassId) (a : Attr) : Option (a.Val ν) :=
  r.lookup (r.mro c) a

/-- `super(c, cls)`: the classes after `c` in the order of `cls`. -/
def superGetattr (r : TaskTypeRegistry ν) (cls c : ClassId) (a : Attr) : Option (a.Val ν) :=
  r.lookup (((r.mro cls).dropWhile (· ≠ c)).tail) a

/-! ## The registry -/

def registerType (r : TaskTypeRegistry ν) (name : TypeCode) (c : ClassId) : TaskTypeRegistry ν :=
  { r with
    registeredTypes := r.registeredTypes.set name (c :: (r.registeredTypes.get name).getD [])
    initializedTypes := r.initializedTypes.erase name }

def initSubclass (r : TaskTypeRegistry ν) (c : ClassId) : TaskTypeRegistry ν :=
  match (r.getattr c .name : Option (Option TypeCode)) with
  | some (some name) => r.registerType name c
  | _ => r

def addClass (r : TaskTypeRegistry ν) (c : ClassId) (cls : PyClass ν) : TaskTypeRegistry ν :=
  { r with classes := r.classes.set c cls }

/-- A class statement, or a call of `type`: a base that occurs twice and bases without a
linearisation are a TypeError. -/
def newClass (r : TaskTypeRegistry ν) (c : ClassId) (module : String) (bases : List ClassId)
    (body : ClassBody ν) : Except PyError (TaskTypeRegistry ν) :=
  if bases.Nodup then
    match C3.merge (bases.map r.mro ++ [bases]) with
    | some l => .ok ((r.addClass c ⟨module, body, c :: l⟩).initSubclass c)
    | none => .error .typeError
  else .error .typeError

/-- A module defines a direct subclass of `AbstractTaskType`. -/
def define (r : TaskTypeRegistry ν) (module : String) (body : ClassBody ν) :
    Except PyError (TaskTypeRegistry ν) :=
  newClass { r with definitions := r.definitions + 1 } (.definition r.definitions) module
    [.abstractTaskType] body

/-- The `__module__` of the classes that the registry builds: `ABCMeta.__new__` makes them. -/
def registryModule : String := "abc"

/-- `type(name, tuple(defs), {})`, stored in `_initialized_types`. -/
def build (r : TaskTypeRegistry ν) (name : TypeCode) (defs : List ClassId) :
    Except PyError (TaskTypeRegistry ν) :=
  (newClass { r with merges := r.merges + 1 } (.merged r.merges) registryModule defs .empty).map
    fun r' => { r' with initializedTypes := r'.initializedTypes.set name (.merged r.merges) }

/-- `initialize`. -/
def initializeTypes (r : TaskTypeRegistry ν) : Except PyError (TaskTypeRegistry ν) :=
  r.registeredTypes.keys.foldlM (fun r name =>
    match r.initializedTypes.get name, r.registeredTypes.get name with
    | none, some defs => r.build name defs
    | _, _ => .ok r) r

def getInitializedTypes (r : TaskTypeRegistry ν) :
    Except PyError (Dict TypeCode ClassId × TaskTypeRegistry ν) :=
  r.initializeTypes.map fun r' => (r'.initializedTypes, r')

def getTaskType (r : TaskTypeRegistry ν) (code : TypeCode) :
    Except PyError (ClassId × TaskTypeRegistry ν) :=
  match r.initializedTypes.get code with
  | some c => .ok (c, r)
  | none => match r.registeredTypes.get code with
    | some defs => (r.build code defs).map fun r' => (.merged r.merges, r')
    | none => .error .keyError

end TaskTypeRegistry

/-- What modules and the framework do with the registry. -/
inductive RegistryEv (ν : Type) where
  | define (module : String) (body : ClassBody ν)
  | getTaskType (code : TypeCode)
  | getInitializedTypes
  | initializeTypes

/-- The definition that an event makes. -/
def RegistryEv.definition? {ν : Type} : RegistryEv ν → Option (String × ClassBody ν)
  | .define module body => some (module, body)
  | _ => none

def RegistryEv.isDefine {ν : Type} (e : RegistryEv ν) : Bool := e.definition?.isSome

namespace TaskTypeRegistry

variable {ν : Type}

/-- A KeyError of `get_task_type` is the answer for a code that nobody defines. -/
def call (r : TaskTypeRegistry ν) : RegistryEv ν → Except PyError (TaskTypeRegistry ν)
  | .define module body => r.define module body
  | .getTaskType code => match r.getTaskType code with
    | .ok (_, r') => .ok r'
    | .error .keyError => .ok r
    | .error .typeError => .error .typeError
  | .getInitializedTypes => r.getInitializedTypes.map Prod.snd
  | .initializeTypes => r.initializeTypes

def calls (r : TaskTypeRegistry ν) (es : List (RegistryEv ν)) :
    Except PyError (TaskTypeRegistry ν) := es.foldlM call r

def baseChain : List ClassId := [.abstractTaskType, .abc, .object]

/-- The defaults of `AbstractTaskType`, `others` being its other attributes. -/
def abstractBody (others : String → Option ν) : ClassBody ν
  | .name => some none
  | .notifyOnCompletion => some false
  | .propagateProgress => some false
  | .retryPolicy => some (.canonical .noRetry)
  | .maxRetries => some 0
  | .serviceName => some none
  | .defaultChannel => some (some "default")
  | .other a => others a

def builtinBody (others : String → Option ν) : ClassBody ν
  | .other a => others a
  | _ => none

/-- The registry before the first task type. -/
def initial (abstract abc object : String → Option ν) : TaskTypeRegistry ν where
  classes := ((Dict.empty.set .object ⟨"builtins", builtinBody object, [.object]⟩).set .abc
    ⟨"abc", builtinBody abc, [.abc, .object]⟩).set .abstractTaskType
    ⟨"odoo.addons.generic_task_queue.service.task_type", abstractBody abstract, baseChain⟩

/-- The classes among the definitions `ds` that declare a type code, the newest first. -/
def declaring (code : TypeCode) (ds : List (String × ClassBody ν)) : List ClassId :=
  ((ds.zipIdx.filter fun p => (p.1.2 .name : Option (Option TypeCode)) = some (some code)).map
    fun p => .definition p.2).reverse

/-- The definitions of a type code that a sequence of events registers, the newest first. -/
def definedFor (code : TypeCode) (es : List (RegistryEv ν)) : List ClassId :=
  declaring code (es.filterMap RegistryEv.definition?)

variable {r r' : TaskTypeRegistry ν} {c : ClassId} {L post : List ClassId} {code name : TypeCode}
  {a : Attr} {es : List (RegistryEv ν)}

/-! ## Lists of which some members count -/

section

variable {α β : Type} {f : α → Option β} {p : α → Bool} {x : α} {l : List α}

theorem findSome?_filter (h : ∀ x ∈ l, p x = false → f x = none) :
    (l.filter p).findSome? f = l.findSome? f := by
  induction l with
  | nil => rfl
  | cons y l ih =>
    have ih := ih fun x hx => h x (List.mem_cons_of_mem _ hx)
    cases hy : p y with
    | true => simp [List.findSome?_cons, hy, ih]
    | false => simp [hy, ih, h y List.mem_cons_self hy]

theorem after_filter [DecidableEq α] (hx : p x = true) :
    ((l.filter p).dropWhile (· ≠ x)).tail = ((l.dropWhile (· ≠ x)).tail).filter p := by
  induction l with
  | nil => rfl
  | cons y l ih =>
    by_cases hyx : y = x
    · subst hyx
      simp [hx]
    · cases hy : p y with
      | true => simpa [hy, hyx] using ih
      | false => simpa [hy, hyx] using ih

end

/-! ## A list of definitions -/

def Listed (r : TaskTypeRegistry ν) (code : TypeCode) (c : ClassId) (post : List ClassId) : Prop :=
  (c.written = true ∧ r.body c .name = some (some code) ∧ r.mro c = c :: baseChain) ∨
  (c.written = false ∧ r.body c = .empty ∧ post ≠ [] ∧ r.mro c = c :: (post ++ baseChain))

/-- The definitions of `code`, and the classes built between them. -/
def Chain (r : TaskTypeRegistry ν) (code : TypeCode) : List ClassId → Prop
  | [] => True
  | c :: post => c ∉ post ++ baseChain ∧ r.Listed code c post ∧ r.Chain code post

theorem Listed.congr (hm : r'.mro c = r.mro c) (hb : r'.body c = r.body c)
    (h : r.Listed code c post) : r'.Listed code c post := by
  unfold Listed
  rw [hm, hb]
  exact h

theorem Chain.congr (hm : ∀ c ∈ L, r'.mro c = r.mro c) (hb : ∀ c ∈ L, r'.body c = r.body c)
    (h : r.Chain code L) : r'.Chain code L := by
  induction L with
  | nil => trivial
  | cons c post ih =>
    refine ⟨h.1, h.2.1.congr (hm c List.mem_cons_self) (hb c List.mem_cons_self), ?_⟩
    exact ih (fun c hc => hm c (List.mem_cons_of_mem _ hc))
      (fun c hc => hb c (List.mem_cons_of_mem _ hc)) h.2.2

theorem baseChain_nodup : baseChain.Nodup := by decide

theorem written_base : ∀ c ∈ baseChain, c.written = true := by decide

theorem Chain.nodup (h : r.Chain code L) : (L ++ baseChain).Nodup := by
  induction L with
  | nil => exact baseChain_nodup
  | cons c post ih => exact List.nodup_cons.2 ⟨h.1, ih h.2.2⟩

theorem Chain.mro_sublist (h : r.Chain code L) (hc : c ∈ L) :
    (r.mro c).Sublist (L ++ baseChain) := by
  induction L with
  | nil => cases hc
  | cons x post ih =>
    rcases List.mem_cons.1 hc with rfl | hc
    · rcases h.2.1 with ⟨-, -, hm⟩ | ⟨-, -, -, hm⟩
      · rw [hm]
        exact (List.sublist_append_right post baseChain).cons_cons c
      · rw [hm]
        exact List.Sublist.refl _
    · exact (ih h.2.2 hc).cons x

theorem Chain.oldest (h : r.Chain code (L ++ [c])) : r.mro c = c :: baseChain := by
  induction L with
  | nil =>
    rcases h.2.1 with ⟨-, -, hm⟩ | ⟨-, -, hne, -⟩
    · exact hm
    · exact absurd rfl hne
  | cons x L ih => exact ih h.2.2

/-- **The bases of a merged class have a linearisation**, which is their own order. -/
theorem Chain.merge (h : r.Chain code L) (hne : L ≠ []) :
    C3.merge (L.map r.mro ++ [L]) = some (L ++ baseChain) := by
  refine C3.merge_eq (fun k hk => ?_) h.nodup ?_
  · rcases List.mem_append.1 hk with hk | hk
    · obtain ⟨c, hc, rfl⟩ := List.mem_map.1 hk
      exact h.mro_sublist hc
    · rw [List.mem_singleton.1 hk]
      exact List.sublist_append_left L baseChain
  · obtain ⟨m, c, rfl⟩ := (List.eq_nil_or_concat L).resolve_left hne
    rw [List.concat_eq_append] at h ⊢
    have hold := h.oldest
    rw [List.append_assoc]
    refine C3.covers_glue (by simp) ?_
    show c :: baseChain ∈ _
    rw [← hold]
    simp

theorem Chain.body_empty (h : r.Chain code L) (hc : c ∈ L) (hw : c.written = false) :
    r.body c = .empty := by
  induction L with
  | nil => cases hc
  | cons x post ih =>
    rcases List.mem_cons.1 hc with rfl | hc
    · rcases h.2.1 with ⟨hw', -, -⟩ | ⟨-, hb, -, -⟩
      · rw [hw] at hw'
        cases hw'
      · exact hb
    · exact ih h.2.2 hc

theorem Chain.declares (h : r.Chain code L) (hne : L ≠ []) :
    r.lookup (L ++ baseChain) .name = some (some code) := by
  induction L with
  | nil => exact absurd rfl hne
  | cons c post ih =>
    show (List.findSome? _ (c :: (post ++ baseChain)) : Option (Option TypeCode)) = _
    rcases h.2.1 with ⟨-, hn, -⟩ | ⟨-, hb, hpost, -⟩
    · rw [List.findSome?_cons]
      simp only [hn]
    · rw [List.findSome?_cons]
      simp only [hb, ClassBody.empty]
      exact ih h.2.2 hpost

/-! ## One new class -/

@[simp] theorem mro_addClass (c k : ClassId) (cls : PyClass ν) :
    (r.addClass c cls).mro k = if k = c then cls.mro else r.mro k := by
  simp only [mro, addClass, Dict.get_set]
  split <;> rfl

@[simp] theorem body_addClass (c k : ClassId) (cls : PyClass ν) :
    (r.addClass c cls).body k = if k = c then cls.body else r.body k := by
  simp only [body, addClass, Dict.get_set]
  split <;> rfl

theorem lookup_congr {chain : List ClassId} (h : ∀ c ∈ chain, r'.body c = r.body c) :
    r'.lookup chain a = r.lookup chain a := by
  induction chain with
  | nil => rfl
  | cons c chain ih =>
    simp only [lookup, List.findSome?_cons, h c List.mem_cons_self] at ih ⊢
    rw [ih fun c hc => h c (List.mem_cons_of_mem _ hc)]

theorem newClass_eq {m : String} {b : ClassBody ν} {bases l : List ClassId} (hnd : bases.Nodup)
    (hl : C3.merge (bases.map r.mro ++ [bases]) = some l) :
    r.newClass c m bases b = .ok ((r.addClass c ⟨m, b, c :: l⟩).initSubclass c) := by
  unfold newClass
  rw [if_pos hnd, hl]

theorem getattr_addClass {m : String} {b : ClassBody ν} {l : List ClassId} (hc : c ∉ l) :
    (r.addClass c ⟨m, b, c :: l⟩).getattr c a = (b a).or (r.lookup l a) := by
  have hl : (r.addClass c ⟨m, b, c :: l⟩).lookup l a = r.lookup l a := by
    refine lookup_congr fun k hk => ?_
    rw [body_addClass, if_neg]
    rintro rfl
    exact hc hk
  rw [← hl]
  simp only [getattr, mro_addClass, if_true, lookup, List.findSome?_cons, body_addClass]
  cases b a <;> rfl

/-! ## The invariant -/

def Created (r : TaskTypeRegistry ν) : ClassId → Prop
  | .definition k => k < r.definitions
  | .merged k => k < r.merges
  | _ => True

/-- The classes there are when the definitions `ds` have been made, `r₀` being the registry before
them. -/
structure Made (r₀ : TaskTypeRegistry ν) (ds : List (String × ClassBody ν))
    (r : TaskTypeRegistry ν) : Prop where
  base : ∀ c ∈ baseChain, r.classes.get c = r₀.classes.get c
  created : ∀ c ∈ r.classes.keys, r.Created c
  count : r.definitions = ds.length
  bodies : ∀ k m b, ds[k]? = some (m, b) → r.body (.definition k) = b

/-- Every list of definitions is one of classes that exist. -/
def Lists (r : TaskTypeRegistry ν) : Prop := ∀ code L, r.registeredTypes.get code = some L →
  L ≠ [] ∧ r.Chain code L ∧ ∀ c ∈ L, c ∈ r.classes.keys

/-- The cache holds the classes built since the last registration of their code. -/
def Cached (r : TaskTypeRegistry ν) : Prop := ∀ code c, r.initializedTypes.get code = some c ↔
  c.written = false ∧ ∃ post, r.registeredTypes.get code = some (c :: post)

/-- The definitions registered for `code`, without the classes built between them. -/
def writtenFor (r : TaskTypeRegistry ν) (code : TypeCode) : List ClassId :=
  ((r.registeredTypes.get code).getD []).filter ClassId.written

structure Ok (r₀ : TaskTypeRegistry ν) (ds : List (String × ClassBody ν))
    (r : TaskTypeRegistry ν) : Prop where
  made : Made r₀ ds r
  lists : r.Lists
  cached : r.Cached
  order : ∀ code, r.writtenFor code = declaring code ds

variable {abstract abc object : String → Option ν} {ds : List (String × ClassBody ν)} {m : String}
  {b : ClassBody ν}

theorem initial_ok :
    Ok (initial abstract abc object) [] (initial abstract abc object) := by
  refine ⟨⟨fun _ _ => rfl, fun c hc => ?_, rfl, by simp⟩, ?_, ?_, fun code => ?_⟩
  · simp only [initial, Dict.mem_keys_set, Dict.keys_empty, List.not_mem_nil, or_false] at hc
    rcases hc with rfl | rfl | rfl <;> trivial
  · intro code L hL
    simp [initial] at hL
  · intro code c
    simp [initial]
  · simp [initial, writtenFor, declaring]

theorem Made.body_base (h : Made (initial abstract abc object) ds r) (hc : c ∈ baseChain) :
    r.body c = (initial abstract abc object).body c := by
  simp only [body, h.base c hc]

theorem Made.mro_abstract (h : Made (initial abstract abc object) ds r) :
    r.mro .abstractTaskType = baseChain := by
  simp only [mro, h.base .abstractTaskType (by decide)]
  simp [initial]

theorem Made.lookup_base (h : Made (initial abstract abc object) ds r) :
    r.lookup baseChain a = (initial abstract abc object).lookup baseChain a :=
  lookup_congr fun _ hc => h.body_base hc

theorem Made.fresh_definition {r₀ : TaskTypeRegistry ν} (h : Made r₀ ds r) :
    ClassId.definition r.definitions ∉ r.classes.keys :=
  fun hmem => Nat.lt_irrefl _ (h.created _ hmem)

theorem Made.fresh_merged {r₀ : TaskTypeRegistry ν} (h : Made r₀ ds r) :
    ClassId.merged r.merges ∉ r.classes.keys :=
  fun hmem => Nat.lt_irrefl _ (h.created _ hmem)

theorem initial_name :
    (initial abstract abc object).lookup baseChain .name = some (none : Option TypeCode) := by
  simp [lookup, baseChain, body, initial, abstractBody]

/-- The next definition has been made, but not registered. -/
def withDefinition (r : TaskTypeRegistry ν) (m : String) (b : ClassBody ν) : TaskTypeRegistry ν :=
  addClass { r with definitions := r.definitions + 1 } (.definition r.definitions)
    ⟨m, b, .definition r.definitions :: baseChain⟩

/-- The next class with the bases `L` has been made, but not registered. -/
def withMerged (r : TaskTypeRegistry ν) (L : List ClassId) : TaskTypeRegistry ν :=
  addClass { r with merges := r.merges + 1 } (.merged r.merges)
    ⟨registryModule, .empty, .merged r.merges :: (L ++ baseChain)⟩

def cache (r : TaskTypeRegistry ν) (name : TypeCode) (c : ClassId) : TaskTypeRegistry ν :=
  { r with initializedTypes := r.initializedTypes.set name c }

/-- A class statement always succeeds, and registers a class that declares a type code. -/
theorem Made.define_eq (h : Made (initial abstract abc object) ds r) (m : String)
    (b : ClassBody ν) : r.define m b = .ok (match (b .name : Option (Option TypeCode)) with
      | some (some name) => (r.withDefinition m b).registerType name (.definition r.definitions)
      | _ => r.withDefinition m b) := by
  have hmerge : C3.merge ([ClassId.abstractTaskType].map r.mro ++ [[.abstractTaskType]]) =
      some baseChain := by
    rw [List.map_singleton, h.mro_abstract]
    decide
  have hname : (r.withDefinition m b).getattr (.definition r.definitions) .name =
      (b .name).or (some (none : Option TypeCode)) := by
    unfold withDefinition
    rw [getattr_addClass (by simp [baseChain])]
    show (b .name : Option (Option TypeCode)).or (r.lookup baseChain .name) = _
    rw [h.lookup_base, initial_name]
  have hnew := newClass_eq (r := { r with definitions := r.definitions + 1 })
    (c := .definition r.definitions) (m := m) (b := b) (List.nodup_singleton _) hmerge
  refine hnew.trans (congrArg Except.ok ?_)
  show (r.withDefinition m b).initSubclass (.definition r.definitions) = _
  unfold initSubclass
  rw [hname]
  cases (b .name : Option (Option TypeCode)) with
  | none => rfl
  | some n => cases n <;> rfl

theorem Ok.build_eq (h : Ok (initial abstract abc object) ds r)
    (hL : r.registeredTypes.get name = some L) :
    r.build name L = .ok (((r.withMerged L).registerType name (.merged r.merges)).cache name
      (.merged r.merges)) := by
  obtain ⟨hne, hchain, hkeys⟩ := h.lists name L hL
  have hnew : ClassId.merged r.merges ∉ L ++ baseChain := by
    intro hmem
    rcases List.mem_append.1 hmem with hmem | hmem
    · exact h.made.fresh_merged (hkeys _ hmem)
    · simp [baseChain] at hmem
  have hname : (r.withMerged L).getattr (.merged r.merges) .name = some (some name) := by
    unfold withMerged
    rw [getattr_addClass hnew]
    exact hchain.declares hne
  have hnew := newClass_eq (r := { r with merges := r.merges + 1 }) (c := .merged r.merges)
    (m := registryModule) (b := .empty) hchain.nodup.of_append_left (hchain.merge hne)
  unfold build
  rw [hnew]
  refine congrArg Except.ok ?_
  show cache ((r.withMerged L).initSubclass (.merged r.merges)) name (.merged r.merges) = _
  unfold initSubclass
  rw [hname]

/-! ## Every call keeps the invariant -/

theorem Chain.registerType {k : ClassId} (h : r.Chain code L) :
    (r.registerType name k).Chain code L :=
  Chain.congr (r := r) (fun _ _ => rfl) (fun _ _ => rfl) h

theorem Chain.addClass {cls : PyClass ν} (h : r.Chain code L) (hc : c ∉ L) :
    (r.addClass c cls).Chain code L := by
  have hne : ∀ k ∈ L, k ≠ c := by
    rintro k hk rfl
    exact hc hk
  exact h.congr (fun k hk => by rw [mro_addClass, if_neg (hne k hk)])
    (fun k hk => by rw [body_addClass, if_neg (hne k hk)])

theorem Lists.addClass {cls : PyClass ν} (h : r.Lists) (hc : c ∉ r.classes.keys) :
    (r.addClass c cls).Lists := by
  intro code L hL
  obtain ⟨hne, hchain, hkeys⟩ := h code L hL
  exact ⟨hne, hchain.addClass fun hmem => hc (hkeys c hmem),
    fun k hk => Dict.mem_keys_set.2 (.inr (hkeys k hk))⟩

theorem Lists.registerType (h : r.Lists) (hc : c ∈ r.classes.keys)
    (hnew : ∀ L, r.registeredTypes.get name = some L → c ∉ L) (hbase : c ∉ baseChain)
    (hlist : r.Listed name c ((r.registeredTypes.get name).getD [])) :
    (r.registerType name c).Lists := by
  intro code L hL
  simp only [TaskTypeRegistry.registerType, Dict.get_set] at hL
  split at hL
  · next hcode =>
    subst hcode
    obtain rfl := Option.some.inj hL
    refine ⟨List.cons_ne_nil _ _, ?_⟩
    cases hreg : r.registeredTypes.get code with
    | none =>
      rw [hreg] at hlist
      refine ⟨⟨hbase, hlist, trivial⟩, fun k hk => ?_⟩
      rw [List.mem_singleton.1 hk]
      exact hc
    | some L₀ =>
      rw [hreg] at hlist
      obtain ⟨-, hchain, hkeys⟩ := h code L₀ hreg
      refine ⟨⟨?_, hlist, hchain.registerType⟩, fun k hk => ?_⟩
      · intro hmem
        rcases List.mem_append.1 hmem with hmem | hmem
        · exact hnew L₀ hreg hmem
        · exact hbase hmem
      · rcases List.mem_cons.1 hk with rfl | hk
        · exact hc
        · exact hkeys k hk
  · obtain ⟨hne, hchain, hkeys⟩ := h code L hL
    exact ⟨hne, hchain.registerType, hkeys⟩

theorem declaring_concat (code : TypeCode) (ds : List (String × ClassBody ν)) (m : String)
    (b : ClassBody ν) : declaring code (ds ++ [(m, b)]) =
      if (b .name : Option (Option TypeCode)) = some (some code)
      then .definition ds.length :: declaring code ds else declaring code ds := by
  unfold declaring
  rw [List.zipIdx_append, List.filter_append]
  by_cases h : (b .name : Option (Option TypeCode)) = some (some code) <;> simp [h]

theorem Made.base_addClass {r₀ : TaskTypeRegistry ν} {cls : PyClass ν} (h : Made r₀ ds r)
    (hc : c ∉ baseChain) :
    ∀ k ∈ baseChain, (r.addClass c cls).classes.get k = r₀.classes.get k := by
  intro k hk
  rw [← h.base k hk]
  simp [TaskTypeRegistry.addClass, ne_of_mem_of_not_mem hk hc]

theorem Made.withDefinition {r₀ : TaskTypeRegistry ν} (h : Made r₀ ds r) :
    Made r₀ (ds ++ [(m, b)]) (r.withDefinition m b) := by
  unfold TaskTypeRegistry.withDefinition
  refine ⟨h.base_addClass (by simp [baseChain]), fun c hc => ?_,
    by simp [TaskTypeRegistry.addClass, h.count], ?_⟩
  · rcases Dict.mem_keys_set.1 hc with rfl | hc
    · exact Nat.lt_succ_self _
    · have hold := h.created c hc
      cases c with
      | definition k => exact Nat.lt_succ_of_lt hold
      | merged k => exact hold
      | _ => trivial
  · intro k m' b' hk
    rw [body_addClass]
    by_cases hkd : k = ds.length
    · subst hkd
      simp only [List.getElem?_concat_length, Option.some.injEq, Prod.mk.injEq] at hk
      rw [if_pos (by rw [h.count]), hk.2]
    · rw [if_neg (by simpa [h.count] using hkd)]
      refine h.bodies k m' b' ?_
      rw [← hk, List.getElem?_append_left]
      have := (List.getElem?_eq_some_iff.1 hk).1
      simp only [List.length_append, List.length_singleton] at this
      omega

theorem Made.withMerged {r₀ : TaskTypeRegistry ν} (h : Made r₀ ds r) :
    Made r₀ ds (r.withMerged L) := by
  unfold TaskTypeRegistry.withMerged
  refine ⟨h.base_addClass (by simp [baseChain]), fun c hc => ?_, h.count, fun k m b hk => ?_⟩
  · rcases Dict.mem_keys_set.1 hc with rfl | hc
    · exact Nat.lt_succ_self _
    · have hold := h.created c hc
      cases c with
      | definition k => exact hold
      | merged k => exact Nat.lt_succ_of_lt hold
      | _ => trivial
  · rw [body_addClass, if_neg (by simp)]
    exact h.bodies k m b hk

theorem Cached.registerType (h : r.Cached) (hw : c.written = true) :
    (r.registerType name c).Cached := by
  intro code k
  simp only [TaskTypeRegistry.registerType, Dict.get_erase, Dict.get_set]
  by_cases hcode : code = name
  · simp only [hcode, if_true, reduceCtorEq, false_iff, not_and, not_exists]
    rintro hk post hpost
    obtain rfl := (List.cons.inj (Option.some.inj hpost)).1
    rw [hw] at hk
    cases hk
  · rw [if_neg hcode, if_neg hcode]
    exact h code k

theorem Cached.build (h : r.Cached) (hw : c.written = false) :
    ((r.registerType name c).cache name c).Cached := by
  intro code k
  simp only [TaskTypeRegistry.registerType, cache, Dict.get_erase, Dict.get_set]
  by_cases hcode : code = name
  · simp only [hcode, if_true]
    constructor
    · intro hk
      obtain rfl := Option.some.inj hk
      exact ⟨hw, _, rfl⟩
    · rintro ⟨-, post, hpost⟩
      rw [(List.cons.inj (Option.some.inj hpost)).1]
  · simp only [hcode, if_false]
    exact h code k

theorem writtenFor_registerType (code : TypeCode) : (r.registerType name c).writtenFor code =
    if code = name ∧ c.written = true then c :: r.writtenFor code else r.writtenFor code := by
  simp only [writtenFor, TaskTypeRegistry.registerType, Dict.get_set]
  by_cases hcode : code = name
  · cases hw : c.written <;> simp [hcode, hw]
  · simp [hcode]

theorem Lists.congr (h : r.Lists) (hreg : r'.registeredTypes = r.registeredTypes)
    (hcls : r'.classes = r.classes) : r'.Lists := by
  intro code L hL
  rw [hreg] at hL
  obtain ⟨hne, hchain, hkeys⟩ := h code L hL
  refine ⟨hne, hchain.congr (fun c _ => ?_) (fun c _ => ?_), fun c hc => ?_⟩
  · simp only [mro, hcls]
  · simp only [body, hcls]
  · rw [hcls]
    exact hkeys c hc

theorem Lists.withDefinition (h : r.Lists)
    (hc : ClassId.definition r.definitions ∉ r.classes.keys) : (r.withDefinition m b).Lists := by
  have hr : Lists { r with definitions := r.definitions + 1 } := h.congr rfl rfl
  exact hr.addClass hc

theorem Lists.withMerged (h : r.Lists) (hc : ClassId.merged r.merges ∉ r.classes.keys) :
    (r.withMerged L).Lists := by
  have hr : Lists { r with merges := r.merges + 1 } := h.congr rfl rfl
  exact hr.addClass hc

theorem Lists.cache (h : r.Lists) : (r.cache name c).Lists := h.congr rfl rfl

/-- **A class statement never raises**, and puts the class first for the code it declares. -/
theorem Ok.define (h : Ok (initial abstract abc object) ds r) (m : String) (b : ClassBody ν) :
    ∃ r', r.define m b = .ok r' ∧ Ok (initial abstract abc object) (ds ++ [(m, b)]) r' := by
  refine ⟨_, h.made.define_eq m b, ?_⟩
  have hmade := h.made.withDefinition (m := m) (b := b)
  have hlists : (r.withDefinition m b).Lists := h.lists.withDefinition h.made.fresh_definition
  have hplain : (∀ code, (b .name : Option (Option TypeCode)) ≠ some (some code)) →
      Ok (initial abstract abc object) (ds ++ [(m, b)]) (r.withDefinition m b) := by
    intro hb
    refine ⟨hmade, hlists, h.cached, fun code => ?_⟩
    rw [declaring_concat, if_neg (hb code)]
    exact h.order code
  cases hn : (b .name : Option (Option TypeCode)) with
  | none => exact hplain (by simp [hn])
  | some n => cases n with
    | none => exact hplain (by simp [hn])
    | some name =>
      refine ⟨⟨hmade.base, hmade.created, hmade.count, hmade.bodies⟩, ?_, ?_, fun code => ?_⟩
      · refine hlists.registerType (Dict.mem_keys_set.2 (.inl rfl)) (fun L hL hmem => ?_)
          (by simp [baseChain]) (.inl ⟨rfl, ?_, ?_⟩)
        · exact h.made.fresh_definition ((h.lists name L hL).2.2 _ hmem)
        · simpa [TaskTypeRegistry.withDefinition] using hn
        · simp [TaskTypeRegistry.withDefinition]
      · exact Cached.registerType h.cached rfl
      · rw [writtenFor_registerType, declaring_concat, ← h.made.count, ← h.order code]
        by_cases hcode : code = name
        · subst hcode
          rw [if_pos ⟨rfl, rfl⟩, if_pos hn]
          rfl
        · rw [if_neg fun h => hcode h.1, if_neg]
          · rfl
          · rw [hn]
            simpa using Ne.symm hcode

/-- **A build never raises**, and its class is the newest of its type code. -/
theorem Ok.build (h : Ok (initial abstract abc object) ds r)
    (hL : r.registeredTypes.get name = some L) :
    ∃ r', r.build name L = .ok r' ∧ Ok (initial abstract abc object) ds r' ∧
      r'.initializedTypes.get name = some (.merged r.merges) ∧
      (∀ code, code ≠ name → r'.initializedTypes.get code = r.initializedTypes.get code) ∧
      ∀ code, code ∈ r'.registeredTypes.keys ↔ code ∈ r.registeredTypes.keys := by
  obtain ⟨hne, hchain, hkeys⟩ := h.lists name L hL
  have hreg : (r.withMerged L).registeredTypes.get name = some L := hL
  refine ⟨_, h.build_eq hL, ?_, by simp [cache], fun code hcode => ?_, fun code => ?_⟩
  · have hmade := h.made.withMerged (L := L)
    refine ⟨⟨hmade.base, hmade.created, hmade.count, hmade.bodies⟩, Lists.cache ?_, ?_,
      fun code => ?_⟩
    · refine (h.lists.withMerged h.made.fresh_merged).registerType
        (Dict.mem_keys_set.2 (.inl rfl)) (fun L' hL' hmem => ?_) (by simp [baseChain])
        (.inr ⟨rfl, ?_, ?_, ?_⟩)
      · exact h.made.fresh_merged ((h.lists name L' hL').2.2 _ hmem)
      · simp [TaskTypeRegistry.withMerged]
      · simpa [hreg] using hne
      · rw [hreg]
        simp [TaskTypeRegistry.withMerged]
    · exact Cached.build h.cached rfl
    · show ((r.withMerged L).registerType name (.merged r.merges)).writtenFor code = _
      rw [writtenFor_registerType, if_neg (by simp [ClassId.written])]
      exact h.order code
  · simp [cache, TaskTypeRegistry.registerType, TaskTypeRegistry.withMerged,
      TaskTypeRegistry.addClass, hcode]
  · show code ∈ ((r.withMerged L).registerType name (.merged r.merges)).registeredTypes.keys ↔ _
    rw [TaskTypeRegistry.registerType, Dict.mem_keys_set]
    constructor
    · rintro (rfl | hcode)
      · exact Dict.mem_keys_iff.2 ⟨L, hL⟩
      · exact hcode
    · exact .inr

theorem Chain.filter_ne_nil (h : r.Chain code L) (hne : L ≠ []) :
    L.filter ClassId.written ≠ [] := by
  induction L with
  | nil => exact absurd rfl hne
  | cons c post ih =>
    rcases h.2.1 with ⟨hw, -, -⟩ | ⟨hw, -, hpost, -⟩
    · simp [hw]
    · simpa [hw] using ih h.2.2 hpost

theorem Ok.registered_iff (h : Ok (initial abstract abc object) ds r) :
    declaring code ds ≠ [] ↔ code ∈ r.registeredTypes.keys := by
  rw [← h.order code]
  constructor
  · intro hne
    by_contra hcode
    exact hne (by simp [writtenFor, Dict.get_eq_none_iff.2 hcode])
  · intro hcode
    obtain ⟨L, hL⟩ := Dict.mem_keys_iff.1 hcode
    obtain ⟨hne, hchain, -⟩ := h.lists code L hL
    simpa [writtenFor, hL] using hchain.filter_ne_nil hne

theorem Ok.getTaskType (h : Ok (initial abstract abc object) ds r)
    (hcode : code ∈ r.registeredTypes.keys) :
    ∃ c r', r.getTaskType code = .ok (c, r') ∧ Ok (initial abstract abc object) ds r' ∧
      r'.initializedTypes.get code = some c := by
  unfold TaskTypeRegistry.getTaskType
  cases hc : r.initializedTypes.get code with
  | some c => exact ⟨c, r, rfl, h, hc⟩
  | none =>
    obtain ⟨L, hL⟩ := Dict.mem_keys_iff.1 hcode
    obtain ⟨r', hr', hok, hcached, -⟩ := h.build hL
    refine ⟨.merged r.merges, r', ?_, hok, hcached⟩
    simp only [hL, hr']
    rfl

theorem Ok.getTaskType_keyError (h : Ok (initial abstract abc object) ds r)
    (hcode : code ∉ r.registeredTypes.keys) : r.getTaskType code = .error .keyError := by
  have hreg : r.registeredTypes.get code = none := Dict.get_eq_none_iff.2 hcode
  have hnone : r.initializedTypes.get code = none := by
    cases hc : r.initializedTypes.get code with
    | none => rfl
    | some c =>
      obtain ⟨-, post, hpost⟩ := (h.cached code c).1 hc
      rw [hreg] at hpost
      cases hpost
  simp only [TaskTypeRegistry.getTaskType, hnone, hreg]

/-- `initialize` builds what is not built, and leaves the rest of the cache alone. -/
theorem Ok.initializeTypes (h : Ok (initial abstract abc object) ds r) :
    ∃ r', r.initializeTypes = .ok r' ∧ Ok (initial abstract abc object) ds r' ∧
      (∀ code c, r.initializedTypes.get code = some c → r'.initializedTypes.get code = some c) ∧
      ∀ code ∈ r.registeredTypes.keys, ∃ c, r'.initializedTypes.get code = some c := by
  unfold TaskTypeRegistry.initializeTypes
  suffices key : ∀ (names : List TypeCode) (r : TaskTypeRegistry ν),
      Ok (initial abstract abc object) ds r → (∀ n ∈ names, n ∈ r.registeredTypes.keys) →
      ∃ r', names.foldlM (fun r name =>
          match r.initializedTypes.get name, r.registeredTypes.get name with
          | none, some defs => r.build name defs
          | _, _ => .ok r) r = .ok r' ∧ Ok (initial abstract abc object) ds r' ∧
        (∀ code c, r.initializedTypes.get code = some c → r'.initializedTypes.get code = some c) ∧
        ∀ code ∈ names, ∃ c, r'.initializedTypes.get code = some c from
    key _ r h fun _ hn => hn
  intro names
  induction names with
  | nil => exact fun r h _ => ⟨r, rfl, h, fun _ _ hc => hc, by simp⟩
  | cons name names ih =>
    intro r h hnames
    obtain ⟨L, hL⟩ := Dict.mem_keys_iff.1 (hnames name List.mem_cons_self)
    have hrest : ∀ n ∈ names, n ∈ r.registeredTypes.keys :=
      fun n hn => hnames n (List.mem_cons_of_mem _ hn)
    rw [List.foldlM_cons]
    cases hc : r.initializedTypes.get name with
    | some c =>
      obtain ⟨r', hr', hok, hkept, hall⟩ := ih r h hrest
      refine ⟨r', hr', hok, hkept, fun code hcode => ?_⟩
      rcases List.mem_cons.1 hcode with rfl | hcode
      · exact ⟨c, hkept code c hc⟩
      · exact hall code hcode
    | none =>
      obtain ⟨r₁, hr₁, hok₁, hcached, hothers, hkeys⟩ := h.build hL
      obtain ⟨r', hr', hok, hkept, hall⟩ := ih r₁ hok₁ fun n hn => (hkeys n).2 (hrest n hn)
      refine ⟨r', ?_, hok, fun code c hcode => hkept code c ?_, fun code hcode => ?_⟩
      · simp only [hL, hr₁]
        exact hr'
      · rw [hothers code ?_]
        · exact hcode
        · rintro rfl
          rw [hc] at hcode
          cases hcode
      · rcases List.mem_cons.1 hcode with rfl | hcode
        · exact ⟨_, hkept code _ hcached⟩
        · exact hall code hcode

/-- **No call raises**, a KeyError for an unknown code apart. -/
theorem Ok.call (h : Ok (initial abstract abc object) ds r) (e : RegistryEv ν) :
    ∃ r', r.call e = .ok r' ∧
      Ok (initial abstract abc object) (ds ++ e.definition?.toList) r' := by
  cases e with
  | define m b => exact h.define m b
  | getTaskType code =>
    simp only [RegistryEv.definition?, Option.toList_none, List.append_nil]
    by_cases hcode : code ∈ r.registeredTypes.keys
    · obtain ⟨c, r', hr', hok, -⟩ := h.getTaskType hcode
      exact ⟨r', by simp only [TaskTypeRegistry.call, hr'], hok⟩
    · exact ⟨r, by simp only [TaskTypeRegistry.call, h.getTaskType_keyError hcode], h⟩
  | getInitializedTypes =>
    simp only [RegistryEv.definition?, Option.toList_none, List.append_nil]
    obtain ⟨r', hr', hok, -⟩ := h.initializeTypes
    exact ⟨r', by simp only [TaskTypeRegistry.call, getInitializedTypes, hr']; rfl, hok⟩
  | initializeTypes =>
    simp only [RegistryEv.definition?, Option.toList_none, List.append_nil]
    obtain ⟨r', hr', hok, -⟩ := h.initializeTypes
    exact ⟨r', hr', hok⟩

theorem Ok.calls (h : Ok (initial abstract abc object) ds r) (es : List (RegistryEv ν)) :
    ∃ r', r.calls es = .ok r' ∧
      Ok (initial abstract abc object) (ds ++ es.filterMap RegistryEv.definition?) r' := by
  induction es generalizing r ds with
  | nil => exact ⟨r, rfl, by simpa using h⟩
  | cons e es ih =>
    obtain ⟨r₁, hr₁, h₁⟩ := h.call e
    obtain ⟨r', hr', h'⟩ := ih h₁
    refine ⟨r', ?_, ?_⟩
    · unfold TaskTypeRegistry.calls
      rw [List.foldlM_cons, hr₁]
      exact hr'
    · cases hd : e.definition? <;> simpa [hd] using h'

/-! ## Lookups are ignored -/

/-- A class resolves as the classes of `chain` do, in their order. -/
structure ResolvesAs (r : TaskTypeRegistry ν) (cls : ClassId) (chain : List ClassId) : Prop where
  order : (r.mro cls).filter ClassId.written = chain
  attrs : ∀ a, r.getattr cls a = r.lookup chain a
  supers : ∀ c, c.written = true → ∀ a,
    r.superGetattr cls c a = r.lookup (chain.dropWhile (· ≠ c)).tail a

theorem lookup_filter {chain : List ClassId}
    (h : ∀ c ∈ chain, c.written = false → r.body c = .empty) :
    r.lookup (chain.filter ClassId.written) a = r.lookup chain a :=
  findSome?_filter fun c hc hw => by rw [h c hc hw]; rfl

theorem Ok.resolves (h : Ok (initial abstract abc object) ds r)
    (hc : r.initializedTypes.get code = some c) :
    r.ResolvesAs c (declaring code ds ++ baseChain) := by
  obtain ⟨hw, post, hreg⟩ := (h.cached code c).1 hc
  obtain ⟨-, hchain, -⟩ := h.lists code _ hreg
  have hmro : r.mro c = c :: post ++ baseChain := by
    rcases hchain.2.1 with ⟨hw', -, -⟩ | ⟨-, -, -, hm⟩
    · rw [hw] at hw'
      cases hw'
    · exact hm
  have hempty : ∀ k ∈ r.mro c, k.written = false → r.body k = .empty := by
    intro k hk hkw
    rw [hmro] at hk
    rcases List.mem_append.1 hk with hk | hk
    · exact hchain.body_empty hk hkw
    · rw [written_base k hk] at hkw
      cases hkw
  have horder : (r.mro c).filter ClassId.written = declaring code ds ++ baseChain := by
    rw [hmro, List.filter_append, ← h.order code]
    simp only [writtenFor, hreg, Option.getD_some]
    rfl
  refine ⟨horder, fun a => ?_, fun k hk a => ?_⟩
  · rw [← horder, lookup_filter hempty]
    rfl
  · rw [← horder, after_filter hk, lookup_filter]
    · rfl
    · intro x hx
      exact hempty x ((List.dropWhile_sublist _).subset (List.mem_of_mem_tail hx))

theorem filterMap_isDefine (es : List (RegistryEv ν)) :
    (es.filter RegistryEv.isDefine).filterMap RegistryEv.definition? =
      es.filterMap RegistryEv.definition? := by
  rw [List.filterMap_filter]
  refine List.filterMap_congr fun e _ => ?_
  cases hd : e.definition? <;> simp [RegistryEv.isDefine, hd]

/-- What `get_task_type` returns after some calls resolves as the definitions do. -/
theorem Ok.getTaskType_resolves (h : Ok (initial abstract abc object) ds r)
    (hcode : declaring code ds ≠ []) :
    ∃ c r', r.getTaskType code = .ok (c, r') ∧ Ok (initial abstract abc object) ds r' ∧
      r'.initializedTypes.get code = some c ∧
      r'.ResolvesAs c (declaring code ds ++ baseChain) := by
  obtain ⟨c, r', hr', hok, hc⟩ := h.getTaskType (h.registered_iff.1 hcode)
  exact ⟨c, r', hr', hok, hc, hok.resolves hc⟩

/-- Two registries with the same definitions agree on what written classes say. -/
theorem Made.lookup_eq {ds : List (String × ClassBody ν)}
    (h : Made (initial abstract abc object) ds r) (h' : Made (initial abstract abc object) ds r')
    (code : TypeCode) {chain : List ClassId} (hchain : chain ⊆ declaring code ds ++ baseChain) :
    r.lookup chain a = r'.lookup chain a := by
  refine lookup_congr fun c hc => ?_
  rcases List.mem_append.1 (hchain hc) with hc | hc
  · simp only [declaring, List.mem_reverse, List.mem_map, List.mem_filter] at hc
    obtain ⟨⟨⟨m, b⟩, k⟩, ⟨hk, -⟩, rfl⟩ := hc
    have hget : ds[k]? = some (m, b) := by simpa using List.mem_zipIdx_iff_getElem?.1 hk
    rw [h.bodies k m b hget, h'.bodies k m b hget]
  · rw [h.body_base hc, h'.body_base hc]

/-- **Task type resolution ignores lookups.** The definitions and lookups never raise. The class of
a code that is defined resolves every attribute and every `super()` chain as its definitions do,
the newest first, and as it does when the same definitions are made without any lookup. -/
theorem resolution_ignores_lookups (abstract abc object : String → Option ν)
    (es : List (RegistryEv ν)) :
    ∃ r r₀, (initial abstract abc object).calls es = .ok r ∧
      (initial abstract abc object).calls (es.filter RegistryEv.isDefine) = .ok r₀ ∧
      (∀ code, definedFor code es = [] → r.getTaskType code = .error .keyError) ∧
      ∀ code, definedFor code es ≠ [] →
        (∃ c r' c₀ r₀', r.getTaskType code = .ok (c, r') ∧ r₀.getTaskType code = .ok (c₀, r₀') ∧
          r'.ResolvesAs c (definedFor code es ++ baseChain) ∧
          (∀ k m b, (es.filterMap RegistryEv.definition?)[k]? = some (m, b) →
            r'.body (.definition k) = b) ∧
          (∀ a, r'.getattr c a = r₀'.getattr c₀ a) ∧
          (∀ k, k.written = true → ∀ a, r'.superGetattr c k a = r₀'.superGetattr c₀ k a) ∧
          ∃ types r'', r'.getInitializedTypes = .ok (types, r'') ∧ types.get code = some c) ∧
        ∃ types r' c, r.getInitializedTypes = .ok (types, r') ∧ types.get code = some c ∧
          r'.getTaskType code = .ok (c, r') ∧
          r'.ResolvesAs c (definedFor code es ++ baseChain) := by
  have h0 : Ok (initial abstract abc object) [] (initial abstract abc object) := initial_ok
  obtain ⟨r, hr, h⟩ := h0.calls es
  obtain ⟨r₀, hr₀, h₀⟩ := h0.calls (es.filter RegistryEv.isDefine)
  rw [List.nil_append] at h h₀
  rw [filterMap_isDefine] at h₀
  refine ⟨r, r₀, hr, hr₀, fun code hcode => ?_, fun code hcode => ⟨?_, ?_⟩⟩
  · exact h.getTaskType_keyError fun hmem => h.registered_iff.2 hmem hcode
  · obtain ⟨c, r', hget, hok, hc, hres⟩ := h.getTaskType_resolves hcode
    obtain ⟨c₀, r₀', hget₀, hok₀, -, hres₀⟩ := h₀.getTaskType_resolves hcode
    refine ⟨c, r', c₀, r₀', hget, hget₀, hres, hok.made.bodies, fun a => ?_, fun k hk a => ?_, ?_⟩
    · rw [hres.attrs, hres₀.attrs]
      exact hok.made.lookup_eq hok₀.made code (List.Subset.refl _)
    · rw [hres.supers k hk, hres₀.supers k hk]
      refine hok.made.lookup_eq hok₀.made code fun x hx => ?_
      exact (List.dropWhile_sublist _).subset (List.mem_of_mem_tail hx)
    · obtain ⟨r'', hr'', -, hkept, -⟩ := hok.initializeTypes
      exact ⟨r''.initializedTypes, r'', by simp only [getInitializedTypes, hr'']; rfl,
        hkept code c hc⟩
  · obtain ⟨r', hr', hok, -, hall⟩ := h.initializeTypes
    obtain ⟨c, hc⟩ := hall code (h.registered_iff.1 hcode)
    refine ⟨r'.initializedTypes, r', c, by simp only [getInitializedTypes, hr']; rfl, hc, ?_,
      hok.resolves hc⟩
    simp only [TaskTypeRegistry.getTaskType, hc]

end TaskTypeRegistry

end GenericTaskQueue
