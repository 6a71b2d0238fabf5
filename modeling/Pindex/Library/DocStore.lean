import Mathlib.Order.Lattice
import Mathlib.Data.Nat.Basic
import Mathlib.Data.List.Basic
import Mathlib.Data.List.Nodup
import Mathlib.Data.List.Perm.Basic

/-!
# A document store with asynchronous queries and writes

A client's view of a remote store of documents: equality queries, answered some time
after the call, and writes, applied (or refused) some time after the call.

* A `Collection` is the documents written so far, oldest first, and the ones sent by a
  client and not yet decided. It carries the two facts every proof needs: identifiers
  are distinct, and a new one is larger than all before.
* Documents are only added, so the collection at an earlier moment is a prefix of its
  `docs`, and a moment is a number of documents. A query issued when the collection had
  `since` documents may be answered with the matches of any prefix from then on
  (`Collection.Answers`), in any order.
* `Collection.Evolves W` is what one step of a system does to a collection whose clients
  write only field maps in `W`.
-/

namespace DocStore

variable {V : Type*}

/-- The dictionary a document is written from. -/
abbrev Fields (V : Type*) := List (String × V)

/-- A document with the identifier that it is stored under. -/
structure Document (V : Type*) where
  id : ℕ
  data : Fields V
deriving DecidableEq, Repr

def Document.get? (d : Document V) (field : String) : Option V :=
  d.data.lookup field

/-! ## Queries -/

/-- A conjunction of equality filters. -/
structure Query (V : Type*) where
  filters : List (String × V)
deriving DecidableEq, Repr

/-- The query without filters: the whole collection. -/
def Query.all : Query V := ⟨[]⟩

def Query.whereField (q : Query V) (field : String) (isEqualTo : V) : Query V :=
  ⟨q.filters ++ [(field, isEqualTo)]⟩

/-- A filter selects the documents that have the field with exactly this value. -/
def Query.Matches (q : Query V) (d : Document V) : Prop :=
  ∀ f ∈ q.filters, d.get? f.1 = some f.2

instance [DecidableEq V] (q : Query V) : DecidablePred q.Matches := fun d =>
  inferInstanceAs (Decidable (∀ f ∈ q.filters, d.get? f.1 = some f.2))

@[simp] theorem Query.matches_all (d : Document V) : (Query.all : Query V).Matches d := by
  simp [Query.Matches, Query.all]

@[simp] theorem Query.matches_whereField {q : Query V} {field : String} {v : V}
    {d : Document V} :
    (q.whereField field v).Matches d ↔ q.Matches d ∧ d.get? field = some v := by
  simp only [Query.Matches, Query.whereField, List.forall_mem_append, List.forall_mem_singleton]

/-- What a query completion is called with. -/
structure Response (V : Type*) where
  querySnapshot : Option (List (Document V))
  err : Option String
deriving DecidableEq, Repr

/-- The completion of a query that was answered with `docs`. -/
def Response.snapshot (docs : List (Document V)) : Response V := ⟨some docs, none⟩

/-! ## Collections -/

structure Collection (V : Type*) where
  docs : List (Document V)
  inFlight : List (Document V)
  nextId : ℕ
  ids_nodup : ((docs ++ inFlight).map Document.id).Nodup
  id_lt : ∀ d ∈ docs ++ inFlight, d.id < nextId

namespace Collection

variable (c : Collection V)

/-- The documents written, or sent and not refused so far. -/
def sent : List (Document V) := c.docs ++ c.inFlight

/-- A collection with no write in flight. -/
def ofDocs (docs : List (Document V)) (h : (docs.map Document.id).Nodup) : Collection V where
  docs
  inFlight := []
  nextId := (docs.map Document.id).foldr max 0 + 1
  ids_nodup := by simpa using h
  id_lt := by
    intro d hd
    have hmem : d.id ∈ docs.map Document.id := List.mem_map_of_mem (by simpa using hd)
    have hle : ∀ (l : List ℕ), d.id ∈ l → d.id ≤ l.foldr max 0 := by
      intro l
      induction l with
      | nil => simp
      | cons a l ih =>
        intro hl
        rcases List.mem_cons.mp hl with h | h
        · exact h ▸ le_max_left _ _
        · exact (ih h).trans (le_max_right _ _)
    exact Nat.lt_succ_of_le (hle _ hmem)

/-- Nothing has been written. -/
def empty : Collection V := ofDocs [] List.nodup_nil

/-- A client sends a new document, under a fresh identifier. -/
def add (fields : Fields V) : Collection V where
  docs := c.docs
  inFlight := c.inFlight ++ [⟨c.nextId, fields⟩]
  nextId := c.nextId + 1
  ids_nodup := by
    rw [← List.append_assoc, List.map_append, List.nodup_append]
    refine ⟨c.ids_nodup, by simp, ?_⟩
    intro i hi j hj
    obtain ⟨d, hd, rfl⟩ := List.mem_map.mp hi
    have := c.id_lt d hd
    simp only [List.map_cons, List.map_nil, List.mem_singleton] at hj
    omega
  id_lt := by
    intro d hd
    rw [← List.append_assoc] at hd
    rcases List.mem_append.mp hd with hd | hd
    · exact (c.id_lt d hd).trans (Nat.lt_succ_self _)
    · obtain rfl := List.mem_singleton.mp hd
      exact Nat.lt_succ_self _

section Decide

variable [DecidableEq V] {d : Document V}

/-- Deciding a write only moves it from `inFlight` to the end of `docs`. -/
theorem perm_erase_inFlight (h : d ∈ c.inFlight) :
    (c.docs ++ [d] ++ c.inFlight.erase d).Perm (c.docs ++ c.inFlight) := by
  rw [List.append_assoc]
  exact (List.perm_cons_erase h).symm.append_left c.docs

/-- The store applies a write. -/
def commit (d : Document V) (h : d ∈ c.inFlight) : Collection V where
  docs := c.docs ++ [d]
  inFlight := c.inFlight.erase d
  nextId := c.nextId
  ids_nodup := ((c.perm_erase_inFlight h).map _).nodup_iff.mpr c.ids_nodup
  id_lt := fun d' hd' => c.id_lt d' ((c.perm_erase_inFlight h).mem_iff.mp hd')

/-- The store refuses a write. -/
def reject (d : Document V) : Collection V where
  docs := c.docs
  inFlight := c.inFlight.erase d
  nextId := c.nextId
  ids_nodup := by
    refine List.Sublist.nodup ?_ c.ids_nodup
    exact ((List.Sublist.refl _).append List.erase_sublist).map _
  id_lt := by
    intro d' hd'
    exact c.id_lt d' (((List.Sublist.refl _).append List.erase_sublist).mem hd')

@[simp] theorem docs_commit (h : d ∈ c.inFlight) : (c.commit d h).docs = c.docs ++ [d] := rfl
@[simp] theorem nextId_commit (h : d ∈ c.inFlight) : (c.commit d h).nextId = c.nextId := rfl
@[simp] theorem docs_reject : (c.reject d).docs = c.docs := rfl
@[simp] theorem nextId_reject : (c.reject d).nextId = c.nextId := rfl

/-- A write that is applied stays among what has been sent. -/
theorem sent_commit_perm (h : d ∈ c.inFlight) : (c.commit d h).sent.Perm c.sent :=
  c.perm_erase_inFlight h

/-- A write that is refused is gone. -/
theorem sent_reject_sublist : (c.reject d).sent.Sublist c.sent :=
  (List.Sublist.refl _).append List.erase_sublist

/-- A refused document leaves no other with its identifier. -/
theorem id_ne_of_mem_reject (h : d ∈ c.inFlight) {d' : Document V}
    (hd' : d' ∈ (c.reject d).sent) : d'.id ≠ d.id := by
  intro hid
  have hsplit := c.ids_nodup
  rw [← (((List.perm_cons_erase h).append_left c.docs).map Document.id).nodup_iff.symm,
    (List.perm_middle.map Document.id).nodup_iff, List.map_cons, List.nodup_cons] at hsplit
  exact hsplit.1 (hid ▸ List.mem_map_of_mem hd')

end Decide

@[simp] theorem docs_add (fields : Fields V) : (c.add fields).docs = c.docs := rfl
@[simp] theorem nextId_add (fields : Fields V) : (c.add fields).nextId = c.nextId + 1 := rfl

theorem sent_add (fields : Fields V) :
    (c.add fields).sent = c.sent ++ [⟨c.nextId, fields⟩] := by
  simp [sent, add]

theorem add_ne_self (fields : Fields V) : c.add fields ≠ c := by
  intro h
  have := congrArg nextId h
  simp at this

@[simp] theorem add_inj {fields fields' : Fields V} :
    c.add fields = c.add fields' ↔ fields = fields' := by
  constructor
  · intro h
    simpa [add] using congrArg inFlight h
  · rintro rfl
    rfl

variable {c}

theorem mem_sent_of_mem_docs {d : Document V} (h : d ∈ c.docs) : d ∈ c.sent :=
  List.mem_append_left _ h

/-- Identifiers are below the next one. -/
theorem id_lt_nextId {d : Document V} (h : d ∈ c.sent) : d.id < c.nextId :=
  c.id_lt d h

/-- A document is determined by its identifier. -/
theorem eq_of_id_eq {d d' : Document V} (h : d ∈ c.sent) (h' : d' ∈ c.sent)
    (hid : d.id = d'.id) : d = d' :=
  List.inj_on_of_nodup_map c.ids_nodup h h' hid

/-! ## Answers -/

section Answers

variable [DecidableEq V] (c) (q : Query V)

/-- `docs` is the answer to `q` at some moment at which the collection had `since`
documents or more. -/
def Answers (since : ℕ) (docs : List (Document V)) : Prop :=
  ∃ n, since ≤ n ∧ n ≤ c.docs.length ∧ docs.Perm ((c.docs.take n).filter fun d => q.Matches d)

/-- A completion may be called with `r`: with an error, or with an answer. -/
def Delivers (since : ℕ) (r : Response V) : Prop :=
  r.err = none → ∃ docs, r.querySnapshot = some docs ∧ c.Answers q since docs

variable {c q} {since : ℕ} {docs : List (Document V)}

/-- An answer holds stored documents that match, and nothing else. -/
theorem Answers.sound (h : c.Answers q since docs) {d : Document V} (hd : d ∈ docs) :
    d ∈ c.docs ∧ q.Matches d := by
  obtain ⟨n, -, -, hperm⟩ := h
  have hmem := List.mem_filter.mp (hperm.mem_iff.mp hd)
  exact ⟨List.mem_of_mem_take hmem.1, by simpa using hmem.2⟩

/-- What was written before the call is in the answer. -/
theorem Answers.complete (h : c.Answers q since docs) {d : Document V}
    (hd : d ∈ c.docs.take since) (hm : q.Matches d) : d ∈ docs := by
  obtain ⟨n, hn, -, hperm⟩ := h
  have htake : d ∈ c.docs.take n := (List.take_subset_take_left _ hn) hd
  exact hperm.mem_iff.mpr (List.mem_filter.mpr ⟨htake, by simpa using hm⟩)

/-- The answers at this moment are the matches, in some order. -/
theorem answers_now : c.Answers q c.docs.length docs ↔
    docs.Perm (c.docs.filter fun d => q.Matches d) := by
  constructor
  · rintro ⟨n, hn, hle, hperm⟩
    rwa [le_antisymm hle hn, List.take_length] at hperm
  · intro hperm
    exact ⟨c.docs.length, le_rfl, le_rfl, by rwa [List.take_length]⟩

theorem Answers.ids_nodup (h : c.Answers q since docs) : (docs.map Document.id).Nodup := by
  obtain ⟨n, -, -, hperm⟩ := h
  refine (hperm.map _).nodup_iff.mpr ?_
  have hsub : ((c.docs.take n).filter fun d => q.Matches d).Sublist (c.docs ++ c.inFlight) :=
    (List.filter_sublist.trans (List.take_sublist _ _)).trans (List.sublist_append_left _ _)
  exact (hsub.map _).nodup c.ids_nodup

end Answers

/-! ## What a step does to a collection -/

/-- One step of a system whose clients write only field maps in `W`. -/
inductive Evolves [DecidableEq V] (W : Fields V → Prop) (c : Collection V) :
    Collection V → Prop
  | same : Evolves W c c
  | add (fields : Fields V) (hf : W fields) : Evolves W c (c.add fields)
  | commit (d : Document V) (h : d ∈ c.inFlight) : Evolves W c (c.commit d h)
  | reject (d : Document V) : Evolves W c (c.reject d)

namespace Evolves

variable [DecidableEq V] {W : Fields V → Prop} {c' : Collection V}

/-- Documents are appended. -/
theorem docs_grow (h : Evolves W c c') : c.docs <+: c'.docs := by
  cases h with
  | same => exact List.prefix_refl _
  | add => exact List.prefix_refl _
  | commit => exact List.prefix_append _ _
  | reject => exact List.prefix_refl _

theorem nextId_le (h : Evolves W c c') : c.nextId ≤ c'.nextId := by
  cases h with
  | add => exact Nat.le_succ _
  | _ => exact le_rfl

/-- What is sent after a step was sent before, or is new and in `W`. -/
theorem mem_sent (h : Evolves W c c') {d : Document V} (hd : d ∈ c'.sent) :
    d ∈ c.sent ∨ (d.id = c.nextId ∧ W d.data) := by
  cases h with
  | same => exact .inl hd
  | add fields hf =>
    rw [sent_add] at hd
    rcases List.mem_append.mp hd with hd | hd
    · exact .inl hd
    · obtain rfl := List.mem_singleton.mp hd
      exact .inr ⟨rfl, hf⟩
  | commit d' h => exact .inl ((c.sent_commit_perm h).mem_iff.mp hd)
  | reject d' => exact .inl (c.sent_reject_sublist.mem hd)

/-- A schema that every written field map meets stays true of all documents. -/
theorem schema {S : Fields V → Prop} (hS : ∀ fields, W fields → S fields)
    (h : Evolves W c c') (hc : ∀ d ∈ c.sent, S d.data) : ∀ d ∈ c'.sent, S d.data := by
  intro d hd
  rcases h.mem_sent hd with hd | ⟨-, hw⟩
  · exact hc d hd
  · exact hS _ hw

end Evolves

end Collection

end DocStore
