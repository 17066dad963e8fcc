import ClosedWorld.Proofs.Store.Frames
import ClosedWorld.Proofs.Store.Histories

/-!
# Identifiers are for ever

Whatever is requested of a store, each of its four tables either has the same keys afterwards or one
new key at its end. So identifiers tell keys apart, they keep their keys, and two requests for
identifiers get the same one just if they ask for the same key, however much lies between them.
Calls are created by one kind of request only, and what a call is created with it keeps.

## Main definitions

* `Interned.Expands`: a table has the keys of another one and possibly new ones after them.
* `Store.Expands`: so have all four tables.
* `Store.Interns`: what asking for keys of one table means, now and after any requests.
* `Store.Creates`: the moment at which a call is created.

## Main statements

* `Store.expands_after`: histories expand the tables.
* `Store.interns_of_cases`: a table interns if its operation looks a key up or adds it.
* `Store.after_interns`: interning in all four tables, and what calls keep.
-/

namespace ClosedWorld

/-! ### Tables with new keys -/

namespace Interned

variable {space : Space} {κ α : Type} {t t' t'' : Interned space κ α}

/-- The second table starts with the keys of the first one and repeats none if that does not. -/
structure Expands (t t' : Interned space κ α) : Prop where
  keys : t.keys <+: t'.keys
  nodup : t.keys.Nodup → t'.keys.Nodup

/-- A table has its own keys. -/
theorem Expands.refl (t : Interned space κ α) : t.Expands t := ⟨List.prefix_rfl, id⟩

/-- A table that is expanded twice in a row is expanded. -/
theorem Expands.trans (h : t.Expands t') (h' : t'.Expands t'') : t.Expands t'' :=
  ⟨h.keys.trans h'.keys, fun nodup => h'.nodup (h.nodup nodup)⟩

/-- Adding an entry with a new key expands a table. -/
theorem expands_push [DecidableEq κ] {k : κ} (new : t.idOf? k = none) (a : α) :
    t.Expands (t.push k a) where
  keys := by
    unfold keys push
    rw [List.map_append]
    exact List.prefix_append _ _
  nodup nodup := nodup_push nodup new a

/-- Setting an entry keeps all keys. -/
theorem expands_set (t : Interned space κ α) (i : Ident space) (a : α) : t.Expands (t.set i a) := by
  constructor
  · rw [keys_set]
  · exact fun nodup => nodup_set nodup i a

/-- An identifier keeps its key when a table expands. -/
theorem Expands.key? (h : t.Expands t') {i : Ident space} {k : κ} (known : t.key? i = some k) :
    t'.key? i = some k := by
  rw [key?_eq_getElem?] at known ⊢
  obtain ⟨later, keys⟩ := h.keys
  have bound : i.index < t.keys.length := (List.getElem?_eq_some_iff.1 known).1
  rw [← keys, List.getElem?_append_left bound, known]

/-- A key is looked up among the keys. -/
theorem idOf?_eq_keys [DecidableEq κ] (t : Interned space κ α) (k : κ) :
    t.idOf? k = (t.keys.findIdx? fun k' => decide (k' = k)).map Ident.mk := by
  unfold idOf? keys
  rw [List.findIdx?_map]
  rfl

/-- A key keeps its identifier when a table expands, since new keys come after it. -/
theorem Expands.idOf? [DecidableEq κ] (h : t.Expands t') {i : Ident space} {k : κ}
    (known : t.idOf? k = some i) : t'.idOf? k = some i := by
  rw [idOf?_eq_keys] at known ⊢
  obtain ⟨later, keys⟩ := h.keys
  obtain ⟨n, found, rfl⟩ := Option.map_eq_some_iff.1 known
  rw [← keys, List.findIdx?_append, found]
  rfl

/-- A new key that is added is found at the next identifier. -/
theorem idOf?_push_new [DecidableEq κ] {k : κ} (new : t.idOf? k = none) (a : α) :
    (t.push k a).idOf? k = some t.nextId := by
  rw [idOf?_eq_keys] at new ⊢
  have keys : (t.push k a).keys = t.keys ++ [k] := List.map_append
  rw [keys, List.findIdx?_append, Option.map_eq_none_iff.1 new, nextId, size_eq_length_keys]
  simp

/-- Without repetition, two identifiers with one key are the same. -/
theorem eq_of_key?_eq (nodup : t.keys.Nodup) {i j : Ident space} {k : κ} (hi : t.key? i = some k)
    (hj : t.key? j = some k) : i = j := by
  rw [key?_eq_getElem?] at hi hj
  apply Ident.eq_of_index_eq
  have bound : i.index < t.keys.length := (List.getElem?_eq_some_iff.1 hi).1
  exact (List.getElem?_inj bound nodup).1 (hi.trans hj.symm)

/-- Without repetition, a key is found at each identifier that has it. -/
theorem idOf?_of_key? [DecidableEq κ] (nodup : t.keys.Nodup) {i : Ident space} {k : κ}
    (known : t.key? i = some k) : t.idOf? k = some i := by
  cases found : t.idOf? k with
  | none => exact absurd (mem_keys.2 ⟨i, known⟩) (idOf?_eq_none_iff.1 found)
  | some j => rw [eq_of_key?_eq nodup (key?_of_idOf? found) known]

end Interned

namespace Store

variable {P : Value → Prop} {M : CallKey → Prop} {s t u : Store}

/-! ### Stores with new keys -/

/-- All four tables are expanded. -/
structure Expands (s t : Store) : Prop where
  instances : s.instances.Expands t.instances
  calls : s.calls.Expands t.calls
  envs : s.envs.Expands t.envs
  arrays : s.arrays.Expands t.arrays

/-- A store has its own keys, in all four tables. -/
theorem Expands.refl (s : Store) : s.Expands s := ⟨.refl _, .refl _, .refl _, .refl _⟩

/-- A store that is expanded twice in a row is expanded. -/
theorem Expands.trans (h : s.Expands t) (h' : t.Expands u) : s.Expands u where
  instances := h.instances.trans h'.instances
  calls := h.calls.trans h'.calls
  envs := h.envs.trans h'.envs
  arrays := h.arrays.trans h'.arrays

/-- Every elementary change expands the tables, or leaves their keys as they are. -/
theorem Alters.expands (h : s.Alters P M t) : s.Expands t := by
  cases h with
  | addInstance new => exact { Expands.refl s with instances := Interned.expands_push new _ }
  | putField => exact { Expands.refl s with instances := Interned.expands_set _ _ _ }
  | addArray new => exact { Expands.refl s with arrays := Interned.expands_push new _ }
  | putElements => exact { Expands.refl s with arrays := Interned.expands_set _ _ _ }
  | addBinding new => exact { Expands.refl s with envs := Interned.expands_push new _ }
  | putBinding => exact { Expands.refl s with envs := Interned.expands_set _ _ _ }
  | putDefault => exact { Expands.refl s with }
  | addCall new => exact { Expands.refl s with calls := Interned.expands_push new _ }
  | putReturns => exact { Expands.refl s with calls := Interned.expands_set _ _ _ }

/-- A store that evolves is expanded. -/
theorem Evolves.expands (h : s.Evolves P M t) : s.Expands t := by
  induction h with
  | refl => exact .refl s
  | tail _ last ih => exact ih.trans last.expands

/-- Every request carries values, when nothing is asked of them. -/
theorem Request.carries_true (request : Request) : request.Carries fun _ => True := by
  cases request with
  | internCall => exact ⟨trivial, fun _ _ => trivial⟩
  | _ => trivial

/-- A request expands the tables, whether it fails or not. -/
theorem expands_perform (s : Store) (request : Request) :
    s.Expands (request.perform.outcome s).2 := by
  by_cases asked : request = .takeChange
  · rw [asked]
    exact { Expands.refl s with }
  · exact (evolves_perform s.allValues_true request.carries_true asked).expands

/-- A history of requests expands the tables, whichever of them fail. -/
theorem expands_after (s : Store) (requests : List Request) : s.Expands (s.after requests) := by
  induction requests generalizing s with
  | nil => exact .refl s
  | cons request rest ih => exact (s.expands_perform request).trans (ih _)

/-! ### Asking for keys -/

section asking

variable {space : Space} {κ α ι : Type}

/-- In this state of a store, a table interns the keys that an operation asks for. The operation may
get more than the key, which then matters only for a new key.

Different identifiers have different keys. Asking for a key yields an identifier that has it: if it
is there, the one that it has already, and nothing changes; if it is new, the size of the table.
Whatever is requested later, no identifier changes its key; and if another key is asked for then,
its identifier is the same just if the key is. -/
structure Interns (s : Store) (table : Store → Interned space κ α)
    (ask : κ → ι → Growing (Ident space)) : Prop where
  injective : ∀ i j k, (table s).key? i = some k → (table s).key? j = some k → i = j
  keyed : ∀ k more, (table ((ask k more).run s).2).key? ((ask k more).run s).1 = some k
  old : ∀ i k more, (table s).key? i = some k → (ask k more).run s = (i, s)
  new : ∀ k more, k ∉ (table s).keys → ((ask k more).run s).1 = ⟨(table s).size⟩
  stable : ∀ later i k, (table s).key? i = some k → (table (s.after later)).key? i = some k
  same_iff : ∀ k more later k' more',
    ((ask k more).run s).1 = ((ask k' more').run (((ask k more).run s).2.after later)).1 ↔ k = k'

/-- A table without repetition interns if its operation looks the key up and otherwise adds it at
the end. -/
theorem interns_of_cases [DecidableEq κ] {table : Store → Interned space κ α}
    {ask : κ → ι → Growing (Ident space)} (nodup : (table s).keys.Nodup)
    (grows : ∀ {t u : Store}, t.Expands u → (table t).Expands (table u))
    (expands : ∀ (t : Store) k more, t.Expands ((ask k more).run t).2)
    (cases : ∀ (t : Store) k more,
      (∃ i, (table t).idOf? k = some i ∧ (ask k more).run t = (i, t)) ∨
        (table t).idOf? k = none ∧ ((ask k more).run t).1 = (table t).nextId ∧
          ∃ a, table ((ask k more).run t).2 = (table t).push k a) :
    s.Interns table ask := by
  have keyed (t : Store) (k : κ) (more : ι) :
      (table ((ask k more).run t).2).key? ((ask k more).run t).1 = some k := by
    rcases cases t k more with ⟨i, found, run⟩ | ⟨-, next, a, pushed⟩
    · rw [run]
      exact Interned.key?_of_idOf? found
    · rw [next, pushed]
      exact Interned.key?_push_nextId ..
  constructor
  case injective => exact fun _ _ _ hi hj => Interned.eq_of_key?_eq nodup hi hj
  case keyed => exact keyed s
  case old =>
    intro i k more known
    have found := Interned.idOf?_of_key? nodup known
    rcases cases s k more with ⟨j, found', run⟩ | ⟨missing, -⟩
    · cases found.symm.trans found'
      exact run
    · cases found.symm.trans missing
  case new =>
    intro k more fresh
    rcases cases s k more with ⟨j, found, -⟩ | ⟨-, next, -⟩
    · exact absurd (Interned.mem_keys.2 ⟨j, Interned.key?_of_idOf? found⟩) fresh
    · exact next
  case stable => exact fun later _ _ known => (grows (s.expands_after later)).key? known
  case same_iff =>
    intro k more later k' more'
    -- Both identifiers have their keys in the last of the three stores.
    have rest := (expands_after ((ask k more).run s).2 later).trans
      (expands (((ask k more).run s).2.after later) k' more')
    have first := (grows rest).key? (keyed s k more)
    have second := keyed (((ask k more).run s).2.after later) k' more'
    constructor
    · intro same
      rw [same] at first
      exact Option.some.inj (first.symm.trans second)
    · rintro rfl
      have distinct := (grows ((expands s k more).trans rest)).nodup nodup
      exact Interned.eq_of_key?_eq distinct first second

/-- The table of instances interns their keys. -/
theorem interns_instances (nodup : s.instances.keys.Nodup) :
    s.Interns (·.instances) fun key (_ : Unit) => internInstance key.clazz key.context := by
  refine interns_of_cases nodup (·.instances) ?_ ?_
  · exact fun t key _ => t.expands_perform (.internInstance key.clazz key.context)
  · intro t key _
    rcases t.internInstance_cases key.clazz key.context with known | ⟨new, run⟩
    · exact .inl known
    · exact .inr ⟨new, by rw [run], .empty, by rw [run]; rfl⟩

/-- The table of calls interns their keys, whatever context and origin come with them. -/
theorem interns_calls (nodup : s.calls.keys.Nodup) :
    s.Interns (·.calls) fun key (more : Option ClazzId × Option CallId) =>
      internCall key more.1 more.2 := by
  refine interns_of_cases nodup (·.calls) ?_ ?_
  · exact fun t key more => t.expands_perform (.internCall key more.1 more.2)
  · intro t key more
    rcases t.calls_internCall_cases key more.1 more.2 with known | ⟨new, next, frame, calls⟩
    · exact .inl known
    · exact .inr ⟨new, next, _, calls⟩

/-- The table of nodes interns their keys. -/
theorem interns_envs (nodup : s.envs.keys.Nodup) :
    s.Interns (·.envs) fun key (_ : Unit) => extendEnv key.outer key.effect key.initial := by
  refine interns_of_cases nodup (·.envs) ?_ ?_
  · exact fun t key _ => t.expands_perform (.extendEnv key.outer key.effect key.initial)
  · intro t key _
    rcases t.extendEnv_cases key.outer key.effect key.initial with known | ⟨new, run⟩
    · exact .inl known
    · exact .inr ⟨new, by rw [run], key.initial, by rw [run]; rfl⟩

/-- The table of arrays interns their keys. -/
theorem interns_arrays (nodup : s.arrays.keys.Nodup) :
    s.Interns (·.arrays) fun key (_ : Unit) => internArray key := by
  refine interns_of_cases nodup (·.arrays) ?_ ?_
  · exact fun t key _ => t.expands_perform (.internArray key)
  · intro t key _
    rcases t.internArray_cases key with known | ⟨new, run⟩
    · exact .inl known
    · exact .inr ⟨new, by rw [run], .noValue, by rw [run]; rfl⟩

end asking

/-! ### The calls that requests create -/

/-- The step leaves the table of calls as it is, also if it fails. -/
abbrev KeepsCalls {α : Type} (step : Updating α) : Prop := KeepsPart calls step

/-- The calls of a store have nothing to do with its instances. -/
theorem isOutside_calls : IsOutside calls := fun _ => rfl

/-- Interning an array leaves the calls alone. -/
theorem keepsCalls_internArray (key : ArrayKey) : KeepsCalls (internArray key) := by
  intro s
  rw [Attempt.outcome_growing]
  obtain ⟨_, -, run⟩ | ⟨-, run⟩ := s.internArray_cases key <;> rw [run]
  rfl

/-- Writing to an array leaves the calls alone. -/
theorem keepsCalls_arraySet (id : ArrayId) (value : Value) : KeepsCalls (arraySet id value) := by
  intro s
  obtain ⟨-, run⟩ | ⟨_, -, ⟨-, run⟩ | ⟨-, run⟩⟩ := s.arraySet_cases id value <;> rw [run]
  rfl

/-- Extending an environment leaves the calls alone. -/
theorem keepsCalls_extendEnv (outer : Option EnvId) (effect : ClazzId) (value : Value) :
    KeepsCalls (extendEnv outer effect value) := by
  intro s
  rw [Attempt.outcome_growing]
  obtain ⟨_, -, run⟩ | ⟨-, run⟩ := s.extendEnv_cases outer effect value <;> rw [run]
  rfl

/-- Installing a default leaves the calls alone. -/
theorem keepsCalls_installDefault (effect : ClazzId) (value : Value) :
    KeepsCalls (installDefault effect value) :=
  fun s => s.calls_installDefault effect value

/-- Replacing an effect leaves the calls alone. -/
theorem keepsCalls_replaceEffect (env : Option EnvId) (effect : ClazzId) (value : Value) :
    KeepsCalls (replaceEffect env effect value) := by
  intro s
  obtain ⟨_, -, run⟩ | ⟨-, -, run⟩ | ⟨-, -, run⟩ | ⟨_, -, -, run⟩ |
      ⟨_, _, -, -, ⟨-, run⟩ | ⟨-, run⟩⟩ := s.replaceEffect_cases env effect value <;> rw [run]
  · exact s.calls_installDefault effect value
  · rfl

/-- All requests but `internCall` and `markReturns` leave the table of calls alone. -/
theorem keepsCalls_perform {request : Request}
    (creates : ∀ key context origin, request ≠ .internCall key context origin)
    (marks : ∀ id, request ≠ .markReturns id) : KeepsCalls request.perform := by
  cases request with
  | internInstance clazz context =>
    exact (keepsPart_internInstance isOutside_calls clazz context).answer _
  | instanceKey id => exact keepsPart_ask (·.instanceKey id) .instanceKey
  | instanceClazz id => exact keepsPart_ask (·.instanceKey id) fun key => .ident key.clazz
  | fields id => exact keepsPart_ask (·.fields id) .fields
  | setField target field value =>
    exact (keepsPart_setField isOutside_calls field value target).answer fun _ => .done
  | readField target field => exact keepsPart_ask (·.readField field target) .value
  | boxInstance id refClazz => exact (keepsPart_boxInstance isOutside_calls id refClazz).answer _
  | internArray key => exact (keepsCalls_internArray key).answer _
  | arraySet id value => exact (keepsCalls_arraySet id value).answer fun _ => .done
  | arrayGet id => exact keepsPart_ask (·.arrayGet id) .value
  | extendEnv outer effect value => exact (keepsCalls_extendEnv outer effect value).answer _
  | envKey id => exact keepsPart_ask (·.envKey id) .envKey
  | lookupEffect env effect => exact keepsPart_ask (·.lookupEffect env effect) .value?
  | replaceEffect env effect value =>
    exact (keepsCalls_replaceEffect env effect value).answer fun _ => .done
  | installDefault effect value => exact (keepsCalls_installDefault effect value).answer _
  | defaultEffect effect => exact keepsPart_look fun s => .value? (s.defaults.find? effect)
  | generation => exact keepsPart_look fun s => .number s.generation
  | internCall key context origin => exact absurd rfl (creates key context origin)
  | callKey id => exact keepsPart_ask (·.callKey id) .callKey
  | callState id => exact keepsPart_ask (·.callState id) .callState
  | markReturns id => exact absurd rfl (marks id)
  | counts =>
    exact keepsPart_look fun s =>
      .counts s.instances.size s.calls.size s.envs.size s.arrays.size
  | takeChange => exact fun _ => rfl
  | snapshot => exact keepsPart_look .store

/-- Asking for the key, in a context, creates the call `id`: the key is new, the identifier is the
next one, and the frame is the instance of the called clazz in that context. -/
structure Creates (s : Store) (id : CallId) (key : CallKey) (context : Option ClazzId)
    (frame : InstanceId) : Prop where
  new : key ∉ s.calls.keys
  id_eq : id = ⟨s.calls.size⟩
  frame_eq : frame = ((internInstance key.clazz context).run s).1

/-- A call that is there after a request was there before, with the same frame and origin, or the
request creates it. -/
theorem created_of_perform {request : Request} {id : CallId} {key : CallKey} {state : CallState}
    (held : (request.perform.outcome s).2.calls.get? id = some (key, state)) :
    (∃ before, s.calls.get? id = some (key, before) ∧ state.frame = before.frame ∧
        state.origin = before.origin) ∨
      ∃ context, request = .internCall key context state.origin ∧
        s.Creates id key context state.frame := by
  -- Only two requests touch the table of calls: one may add an entry, the other one may set a mark.
  by_cases creates : ∃ key context origin, request = .internCall key context origin
  · obtain ⟨key', context, origin, rfl⟩ := creates
    have calls : (Request.perform (.internCall key' context origin)).outcome s =
        (.ok (.ident ((internCall key' context origin).run s).1),
          ((internCall key' context origin).run s).2) := rfl
    rw [calls] at held
    rcases s.internCall_cases key' context origin with ⟨_, -, run⟩ | ⟨new, run⟩
    · rw [run] at held
      exact .inl ⟨state, held, rfl, rfl⟩
    · rw [run] at held
      unfold addCall noting at held
      dsimp only at held
      rw [s.calls_internInstance, Interned.get?_push] at held
      split at held
      · rename_i next
        cases held
        exact .inr ⟨context, rfl, Interned.idOf?_eq_none_iff.1 new, next, rfl⟩
      · exact .inl ⟨state, held, rfl, rfl⟩
  by_cases marks : ∃ id, request = .markReturns id
  · obtain ⟨id', rfl⟩ := marks
    have calls : ((Request.perform (.markReturns id')).outcome s).2 =
        ((markReturns id').outcome s).2 := by
      unfold Request.perform
      rw [Attempt.outcome_bind]
      rcases (markReturns id').outcome s with ⟨_ | _, _⟩ <;> rfl
    rw [calls] at held
    rcases s.markReturns_cases id' with ⟨-, run⟩ | ⟨before, known, ⟨-, run⟩ | ⟨-, run⟩⟩ <;>
      rw [run] at held
    · exact .inl ⟨state, held, rfl, rfl⟩
    · exact .inl ⟨state, held, rfl, rfl⟩
    · unfold putReturns noting at held
      dsimp only at held
      rw [Interned.get?_set] at held
      split at held
      · rename_i same
        obtain ⟨⟨_, _⟩, entry, now⟩ := Option.map_eq_some_iff.1 held
        rw [same] at entry ⊢
        cases now
        cases known.symm.trans (Interned.state?_of_get? entry)
        exact .inl ⟨before, entry, rfl, rfl⟩
      · exact .inl ⟨state, held, rfl, rfl⟩
  · have kept : KeepsCalls request.perform :=
      keepsCalls_perform (by simpa using creates) (by simpa using marks)
    rw [kept s] at held
    exact .inl ⟨state, held, rfl, rfl⟩

/-- A history after a history is one history. -/
theorem after_append (s : Store) (requests later : List Request) :
    s.after (requests ++ later) = (s.after requests).after later :=
  List.foldl_append

/-- Every call has been created by one of the requests. -/
theorem exists_creates {requests : List Request} {id : CallId} {key : CallKey} {state : CallState}
    (held : (after {} requests).calls.get? id = some (key, state)) :
    ∃ earlier context later, requests = earlier ++ .internCall key context state.origin :: later ∧
      (after {} earlier).Creates id key context state.frame := by
  induction requests using List.reverseRecOn generalizing state with
  | nil => cases held
  | append_singleton requests request ih =>
    rw [after_append] at held
    rcases created_of_perform held with ⟨before, entry, frame, origin⟩ | ⟨context, rfl, created⟩
    · obtain ⟨earlier, context, later, rfl, created⟩ := ih entry
      refine ⟨earlier, context, later ++ [request], ?_, ?_⟩
      · rw [origin]
        simp
      · rwa [frame]
    · exact ⟨requests, context, [], rfl, created⟩

/-- The frame of a call is an instance of the called clazz, also later. -/
theorem Creates.key?_frame {id : CallId} {key : CallKey} {context : Option ClazzId}
    {frame : InstanceId} (h : s.Creates id key context frame) (origin : Option CallId)
    (later : List Request) :
    (s.after (.internCall key context origin :: later)).instances.key? frame =
      some ⟨key.clazz, context⟩ := by
  refine (expands_after _ later).instances.key? ?_
  show ((internCall key context origin).run s).2.instances.key? frame = _
  obtain ⟨id', found, -⟩ | ⟨-, run⟩ := s.internCall_cases key context origin
  · rw [Interned.idOf?_eq_none_iff.2 h.new] at found
    cases found
  · rw [run, h.frame_eq]
    exact s.key?_internInstance key.clazz context

/-! ### All four tables -/

/-- In every state of a store, whatever was requested of it, each of the four tables interns the
keys that are asked for. And every call has been created by one of the requests: its origin and its
frame are those of its creation, and the frame is an instance of the clazz that the call calls. -/
theorem after_interns (requests : List Request) :
    let s := after {} requests
    s.Interns (·.instances) (fun key (_ : Unit) => internInstance key.clazz key.context) ∧
      s.Interns (·.calls) (fun key (more : Option ClazzId × Option CallId) =>
        internCall key more.1 more.2) ∧
      s.Interns (·.envs) (fun key (_ : Unit) => extendEnv key.outer key.effect key.initial) ∧
      s.Interns (·.arrays) (fun key (_ : Unit) => internArray key) ∧
      ∀ id key state, s.calls.get? id = some (key, state) →
        ∃ earlier context later,
          requests = earlier ++ .internCall key context state.origin :: later ∧
            (after {} earlier).Creates id key context state.frame ∧
            s.instances.key? state.frame = some ⟨key.clazz, context⟩ := by
  intro s
  have expands : ({} : Store).Expands s := expands_after {} requests
  refine ⟨?_, ?_, ?_, ?_, ?_⟩
  · exact interns_instances (expands.instances.nodup List.nodup_nil)
  · exact interns_calls (expands.calls.nodup List.nodup_nil)
  · exact interns_envs (expands.envs.nodup List.nodup_nil)
  · exact interns_arrays (expands.arrays.nodup List.nodup_nil)
  · intro id key state held
    obtain ⟨earlier, context, later, rfl, created⟩ := exists_creates held
    refine ⟨earlier, context, later, rfl, created, ?_⟩
    show (after {} (earlier ++ _)).instances.key? state.frame = _
    rw [after_append]
    exact created.key?_frame state.origin later

end Store

end ClosedWorld
