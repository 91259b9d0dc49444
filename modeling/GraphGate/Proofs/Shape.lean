import GraphGate.Proofs.Batch
import GraphGate.Proofs.Execution.Unrolling
import GraphGate.Proofs.Request

/-! The shape of responses: an envelope for each entry, from the one course that the entry takes,
and a list of envelopes just where the body is a list. -/
namespace GraphGate

open Execution

variable {ρ σ α : Type}

/-- The envelopes of a response, in their order. -/
def Response.envelopes : Response → List Envelope
  | single envelope => [envelope]
  | multi envelopes => envelopes

namespace Execution

variable {s : Surroundings ρ σ} {stop : Option Nat} {session last : Session ρ σ α}
  {stand stand' : Stand ρ σ α} {notes : List (Note ρ)} {i : Nat}

/-- The moves of an entry, from where it stands to where it comes, whatever others do in between. -/
inductive Walks (s : Surroundings ρ σ) : Stand ρ σ α → List (Deed ρ) → Stand ρ σ α → Prop
  | stay {stand : Stand ρ σ α} : Walks s stand [] stand
  | move {now : Nat} {world world' : World σ} {stand middle last : Stand ρ σ α} {deed : Deed ρ}
    {deeds : List (Deed ρ)} (hm : Moves s now stand world deed middle world')
    (h : Walks s middle deeds last) : Walks s stand (deed :: deeds) last

theorem walks_of_unrolls (h : Unrolls s stop session notes last)
    (hs : session.stands[i]? = some stand) (hl : last.stands[i]? = some stand') :
    Walks s stand (deedsOf i notes) stand' := by
  induction h generalizing stand with
  | refl =>
    rw [hs] at hl
    cases hl
    exact .stay
  | wait _ ih => exact ih hs hl
  | @move session _ j mover moved deed world notes hj hm _ ih =>
    by_cases he : j = i
    · subst he
      rw [hj] at hs
      cases hs
      rw [deedsOf_cons_self]
      exact .move hm (ih (getElem?_put_self hj) hl)
    · rw [deedsOf_cons_of_ne he]
      exact ih ((getElem?_put_of_ne he).trans hs) hl

/-- Whoever moves is an entry of the session. -/
theorem entry_lt_of_unrolls (h : Unrolls s stop session notes last) :
    ∀ note ∈ notes, note.entry < session.stands.length := by
  induction h with
  | refl => exact List.forall_mem_nil _
  | wait _ ih => exact ih
  | move hi _ _ ih =>
    refine List.forall_mem_cons.mpr ⟨(List.getElem?_eq_some_iff.mp hi).1, fun note hn => ?_⟩
    have hlt := ih note hn
    rwa [Session.put, List.length_set] at hlt

end Execution

/-- Each entry has an envelope, which is what the entry gives in its one walk from its beginning to
its end, and nothing else moves. -/
structure Executor.Answers (e : Executor ρ σ) (entries : List Entry) (notes : List (Note ρ))
    (envelopes : List Envelope) : Prop where
  only : ∀ note ∈ notes, note.entry < entries.length
  length : envelopes.length = entries.length
  once : ∀ k entry envelope, entries[k]? = some entry → envelopes[k]? = some envelope →
    Walks e.surroundings (.speaking (e.execute entry)) (deedsOf k notes)
      (.speaking (.done envelope)) ∧
    (e.execute entry).Gives (transcriptOf k notes) envelope

namespace Request

/-- A body that is not empty, is no raw query, and holds an array. -/
def Lists (request : Request) (elements : List Json) : Prop :=
  ∃ body, request.body = some body ∧ body ≠ [] ∧ isRawQuery request.contentType = false ∧
    bodyValue? body = some (.arr elements)

variable {request : Request} {elements : List Json}

theorem lists_iff : request.Lists elements ↔ request.payload? = some (.arr elements) := by
  constructor
  · rintro ⟨_ | ⟨first, rest⟩, hb, hne, hraw, hv⟩
    · exact absurd rfl hne
    · rw [payload?_of_body hb, hraw]
      exact hv
  · intro h
    obtain ⟨first, rest, hb, hraw, hv⟩ := exists_of_payload? h
    exact ⟨first :: rest, hb, by simp, hraw, hv⟩

/-- A list makes a batch of as many entries, and everything else makes one entry. -/
theorem batch_of_lists (h : request.Lists elements) :
    request.batch.isMulti = true ∧ request.batch.entries.length = elements.length := by
  rw [batch_of_array (lists_iff.mp h)]
  exact ⟨rfl, length_elementEntries⟩

theorem batch_of_not_lists (h : ∀ elements, ¬ request.Lists elements) :
    request.batch.isMulti = false ∧ ∃ entry, request.batch.entries = [entry] := by
  have ha : ∀ elements, request.payload? ≠ some (.arr elements) :=
    fun elements hp => h elements (lists_iff.mpr hp)
  by_cases ho : ∃ fields, request.payload? = some (.obj fields)
  · obtain ⟨fields, ho⟩ := ho
    rw [batch_of_object ho, entriesOf_singleton]
    exact ⟨rfl, _, rfl⟩
  · obtain ⟨entry, he⟩ := batch_of_other ha (not_exists.mp ho)
    rw [he]
    exact ⟨rfl, entry, rfl⟩

end Request

namespace Gateway

variable {g : Gateway ρ σ} {stop : Option Nat} {now : Nat} {world : World σ}

theorem length_results {entries : List Entry} :
    (g.resolveEntries stop now world entries).results.length = entries.length := by
  obtain ⟨notes, h⟩ := g.reaches_resolveEntries stop now world entries
  simpa [Session.ofFinish, Executor.session, ended, unbegun] using length_of_unrolls h

/-- A list is answered with a list, and everything else with the envelope of the only entry. -/
theorem resolve_cases (g : Gateway ρ σ) (stop : Option Nat) (now : Nat) (world : World σ)
    (request : Request) :
    let answer := g.resolve stop now world request
    let entries := request.batch.entries
    let results := (g.resolveEntries stop now world entries).results
    (∃ elements, request.Lists elements ∧ answer.2.2 = .multi results ∧
        results.length = elements.length) ∨
      ((∀ elements, ¬ request.Lists elements) ∧ ∃ entry envelope, entries = [entry] ∧
        results = [envelope] ∧ answer.2.2 = .single envelope) := by
  by_cases h : ∃ elements, request.Lists elements
  · obtain ⟨elements, h⟩ := h
    obtain ⟨hmulti, hlength⟩ := Request.batch_of_lists h
    refine .inl ⟨elements, h, ?_, length_results.trans hlength⟩
    rw [resolve, response, hmulti]
    rfl
  · have hnot := not_exists.mp h
    obtain ⟨hsingle, entry, he⟩ := Request.batch_of_not_lists hnot
    have hl : (g.resolveEntries stop now world request.batch.entries).results.length = 1 := by
      rw [length_results, he]
      rfl
    obtain ⟨envelope, hr⟩ := List.length_eq_one_iff.mp hl
    refine .inr ⟨hnot, entry, envelope, he, hr, ?_⟩
    rw [resolve, response, hsingle, hr]
    rfl

theorem envelopes_resolve {request : Request} : (g.resolve stop now world request).2.2.envelopes =
    (g.resolveEntries stop now world request.batch.entries).results := by
  rcases g.resolve_cases stop now world request with
    ⟨elements, -, hm, -⟩ | ⟨-, entry, envelope, -, hr, hs⟩
  · rw [hm]
    rfl
  · rw [hs, hr]
    rfl

/-- The run of the entries is one walk for each of them. -/
theorem exists_answers (g : Gateway ρ σ) (stop : Option Nat) (now : Nat) (world : World σ)
    (entries : List Entry) : ∃ notes,
      Unrolls g.executor.surroundings stop (g.executor.session now world entries) notes
        (.ofFinish (g.resolveEntries stop now world entries)) ∧
      g.executor.Answers entries notes (g.resolveEntries stop now world entries).results := by
  obtain ⟨notes, hu⟩ := g.reaches_resolveEntries stop now world entries
  refine ⟨notes, hu, ?_, length_results, fun k entry envelope hk hr => ?_⟩
  · simpa [Executor.session, unbegun] using entry_lt_of_unrolls hu
  · have hfirst : (g.executor.session now world entries).stands[k]? =
        some (.speaking (g.executor.execute entry)) := getElem?_session hk
    have hlast : (Session.ofFinish (ρ := ρ)
        (g.resolveEntries stop now world entries)).stands[k]? =
        some (.speaking (.done envelope)) := by
      rw [Session.ofFinish, ended, List.getElem?_map, hr]
      rfl
    exact ⟨walks_of_unrolls hu hfirst hlast, gives_of_ended hu hfirst hlast⟩

/-- The response is a list just where the body is one, and of the same length; else it is the one
envelope of the one entry, and there always is one. Up to the response, each entry takes one walk,
from its beginning to its end, in which its envelope is what it gives, and nothing else moves. -/
theorem shape_follows_request (g : Gateway ρ σ) (stop : Option Nat) (now : Nat) (world : World σ)
    (request : Request) :
    let answer := g.resolve stop now world request
    let entries := request.batch.entries
    (∀ n, (∃ envelopes, answer.2.2 = .multi envelopes ∧ envelopes.length = n) ↔
      ∃ elements, request.Lists elements ∧ elements.length = n) ∧
    ((∀ elements, ¬ request.Lists elements) → ∃ entry envelope, entries = [entry] ∧
      (g.resolveEntries stop now world entries).results = [envelope] ∧
      answer.2.2 = .single envelope) ∧
    ∃ notes, Unrolls g.executor.surroundings stop (g.executor.session now world entries) notes
        ⟨answer.1, answer.2.1, ended answer.2.2.envelopes⟩ ∧
      g.executor.Answers entries notes answer.2.2.envelopes := by
  refine ⟨fun n => ?_, fun h => ?_, ?_⟩
  · rcases g.resolve_cases stop now world request with
      ⟨elements, hlists, hm, hlength⟩ | ⟨hnot, entry, envelope, -, -, hs⟩
    · constructor
      · rintro ⟨envelopes, he, rfl⟩
        rw [hm, Response.multi.injEq] at he
        exact ⟨elements, hlists, he ▸ hlength.symm⟩
      · rintro ⟨elements', hlists', rfl⟩
        rw [Request.lists_iff] at hlists hlists'
        rw [hlists] at hlists'
        cases hlists'
        exact ⟨_, hm, hlength⟩
    · refine ⟨?_, fun ⟨elements, hlists, _⟩ => (hnot elements hlists).elim⟩
      rintro ⟨envelopes, he, -⟩
      rw [hs] at he
      cases he
  · rcases g.resolve_cases stop now world request with ⟨elements, hlists, -⟩ | ⟨-, hsingle⟩
    · exact (h elements hlists).elim
    · exact hsingle
  · rw [envelopes_resolve]
    exact g.exists_answers stop now world request.batch.entries

end Gateway

end GraphGate

namespace GraphGate.Sample

/-- A list of two elements has two envelopes; no body has one. -/
theorem shape_follows_request_mistyped :
    (∃ envelopes, ((⟨sleepy, true⟩ : Gateway Unit (List Path)).resolve none 0 ⟨false, []⟩
      (bodied mistypedBody)).2.2 = .multi envelopes ∧ envelopes.length = 2) ∧
    ∃ envelope, ((⟨sleepy, true⟩ : Gateway Unit (List Path)).resolve none 0 ⟨false, []⟩
      (bodied [])).2.2 = .single envelope := by
  have hlists := Request.lists_iff.mpr payload?_mistypedBody
  have hnot : ∀ elements, ¬ (bodied []).Lists elements := by
    rintro elements ⟨body, hb, hne, -⟩
    cases hb
    exact hne rfl
  obtain ⟨hmulti, -⟩ := Gateway.shape_follows_request ⟨sleepy, true⟩ none 0 ⟨false, []⟩
    (bodied mistypedBody)
  obtain ⟨-, hsingle, -⟩ := Gateway.shape_follows_request ⟨sleepy, true⟩ none 0 ⟨false, []⟩
    (bodied [])
  obtain ⟨entry, envelope, -, -, hs⟩ := hsingle hnot
  exact ⟨(hmulti 2).mpr ⟨_, hlists, rfl⟩, envelope, hs⟩

end GraphGate.Sample
