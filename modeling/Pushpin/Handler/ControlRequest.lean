import Mathlib.Data.Finset.Basic
import Pushpin.Core.Utf8

/-! # The `conncheck` control request

`ControlRequest::ConnCheck` (src/src/handler/controlrequest.cpp) sends the connection ids of
a `CidSet` as the `ids` argument of a `conncheck` call, each as `cid.toUtf8()`, and on the
reply turns a list of byte arrays back into a `CidSet` with `QString::fromUtf8`. Any other
reply fails the whole request.

A `CidSet` is a set of strings; the constructor sends its members in the set's iteration
order, a list without repetitions here. A `QVariant` is only what `req_finished` tells
apart: a list, a byte array, or a value of another type.
-/

namespace Pushpin.ControlRequest
set_option autoImplicit false

open Pushpin.Utf8

inductive Variant
  | list (items : List Variant)
  | byteArray (bytes : List UInt8)
  | other

abbrev CidSet := Finset String

/-- How the `ZrpcRequest` finished: `success()` with its `result()`, or a failure with its
`errorCondition()`. -/
inductive Reply
  | success (result : Variant)
  | failure (errorCondition : Nat)

/-- What `ConnCheck` hands to `Deferred::setFinished`: success with the set, or failure, with
the request's error condition when there is one. -/
inductive Finished
  | ok (cids : CidSet)
  | failed (errorCondition : Option Nat)
  deriving DecidableEq

def idsArgument (cids : List String) : List Variant :=
  cids.map fun cid => .byteArray (toUtf8 cid)

/-- The loop of `req_finished` over the result's items, adding each decoded byte array to
`out`; `none` at the first item of another type. -/
def collectCids : List Variant → CidSet → Option CidSet
  | [], out => some out
  | .byteArray b :: rest, out => collectCids rest (insert (fromUtf8 b) out)
  | _ :: _, _ => none

def reqFinished : Reply → Finished
  | .success (.list result) =>
    match collectCids result ∅ with
    | some out => .ok out
    | none => .failed none
  | .success _ => .failed none
  | .failure errorCondition => .failed (some errorCondition)

theorem collectCids_eq_some {items : List Variant} {out out' : CidSet} :
    collectCids items out = some out' ↔
      ∃ bs : List (List UInt8), items = bs.map .byteArray ∧
        out' = out ∪ (bs.map fromUtf8).toFinset := by
  induction items generalizing out with
  | nil => simp [collectCids, eq_comm]
  | cons item rest ih =>
    cases item with
    | byteArray b =>
      simp only [collectCids, ih]
      constructor
      · rintro ⟨bs, rfl, rfl⟩
        exact ⟨b :: bs, rfl, by ext; simp [or_left_comm]⟩
      · rintro ⟨_ | ⟨b', bs⟩, hItems, rfl⟩
        · cases hItems
        · simp only [List.map_cons, List.cons.injEq, Variant.byteArray.injEq] at hItems
          obtain ⟨rfl, rfl⟩ := hItems
          exact ⟨bs, rfl, by ext; simp [or_left_comm]⟩
    | list items =>
      simp only [collectCids, reduceCtorEq, false_iff, not_exists, not_and]
      rintro (_ | ⟨b, bs⟩) h <;> cases h
    | other =>
      simp only [collectCids, reduceCtorEq, false_iff, not_exists, not_and]
      rintro (_ | ⟨b, bs⟩) h <;> cases h

theorem reqFinished_success {v : Variant} {out : CidSet} :
    reqFinished (.success v) = .ok out ↔
      ∃ bs : List (List UInt8), v = .list (bs.map .byteArray) ∧
        out = (bs.map fromUtf8).toFinset := by
  cases v with
  | list items =>
    cases h : collectCids items ∅ with
    | some out' =>
      obtain ⟨bs, rfl, rfl⟩ := collectCids_eq_some.1 h
      simp only [reqFinished, h, Finished.ok.injEq, Variant.list.injEq, Finset.empty_union]
      constructor
      · rintro rfl
        exact ⟨bs, rfl, rfl⟩
      · rintro ⟨bs', hbs, rfl⟩
        rw [List.map_injective_iff.2 (fun _ _ h => Variant.byteArray.inj h) hbs]
    | none =>
      simp only [reqFinished, h, reduceCtorEq, false_iff, not_exists, not_and, Variant.list.injEq]
      rintro bs rfl -
      rw [collectCids_eq_some.2 ⟨bs, rfl, rfl⟩] at h
      cases h
  | byteArray b => simp [reqFinished]
  | other => simp [reqFinished]

theorem reqFinished_success_cases (v : Variant) :
    (∃ out, reqFinished (.success v) = .ok out) ∨ reqFinished (.success v) = .failed none := by
  cases v with
  | list items =>
    simp only [reqFinished]
    split
    · exact .inl ⟨_, rfl⟩
    · exact .inr rfl
  | byteArray b => exact .inr rfl
  | other => exact .inr rfl

/-- For the id "\uFEFF", a reply listing the bytes the constructor sent for it decodes to
the empty id. -/
theorem conncheck_drops_leading_bom :
    reqFinished (.success (.list (idsArgument ["\uFEFF"]))) = .ok {""} ∧
      ("" : String) ≠ "\uFEFF" := by
  decide

/-- `req_finished` succeeds exactly on a list of byte arrays, with the set of their
`fromUtf8`, and otherwise fails with no set. On the bytes the constructor sent, decoding
inverts the encoding for every id that holds no U+0000 and does not start with U+FEFF: a
reply drawn from them, in any order and with repetitions, decodes to the ids whose
encodings it holds. -/
theorem conncheck_decodes_reply :
    (∀ (v : Variant) (out : CidSet), reqFinished (.success v) = .ok out ↔
      ∃ bs : List (List UInt8), v = .list (bs.map .byteArray) ∧
        out = (bs.map fromUtf8).toFinset) ∧
    (∀ v : Variant,
      (∃ out, reqFinished (.success v) = .ok out) ∨ reqFinished (.success v) = .failed none) ∧
    ∀ cids : List String, (∀ c ∈ cids, '\x00' ∉ c.data ∧ c.data.head? ≠ some '\uFEFF') →
      ∀ v : List (List UInt8), (∀ b ∈ v, Variant.byteArray b ∈ idsArgument cids) →
        reqFinished (.success (.list (v.map .byteArray))) =
          .ok (cids.toFinset.filter fun c => toUtf8 c ∈ v) := by
  refine ⟨fun v out => reqFinished_success, reqFinished_success_cases, fun cids hCids v hv => ?_⟩
  rw [reqFinished_success.2 ⟨v, rfl, rfl⟩, Finished.ok.injEq]
  ext x
  simp only [List.mem_toFinset, List.mem_map, Finset.mem_filter]
  constructor
  · rintro ⟨b, hb, rfl⟩
    obtain ⟨c, hc, hcb⟩ := List.mem_map.1 (hv b hb)
    obtain rfl : toUtf8 c = b := Variant.byteArray.inj hcb
    rw [fromUtf8_toUtf8 (hCids c hc).1 (hCids c hc).2]
    exact ⟨hc, hb⟩
  · rintro ⟨hx, hxv⟩
    exact ⟨toUtf8 x, hxv, fromUtf8_toUtf8 (hCids x hx).1 (hCids x hx).2⟩

theorem conncheck_decodes_sample :
    reqFinished (.success (.list ([toUtf8 "beta", toUtf8 "beta"].map .byteArray))) =
      .ok (["alpha", "beta"].toFinset.filter fun c => toUtf8 c ∈ [toUtf8 "beta", toUtf8 "beta"]) :=
  conncheck_decodes_reply.2.2 ["alpha", "beta"] (by decide) _
    (by simp [idsArgument])

/-- Whatever the reply, no id that `req_finished` returns holds U+0000. -/
theorem conncheck_ids_hold_no_nul {v : Variant} {out : CidSet}
    (h : reqFinished (.success v) = .ok out) : ∀ c ∈ out, '\x00' ∉ c.data := by
  obtain ⟨bs, -, rfl⟩ := reqFinished_success.1 h
  intro c hc
  obtain ⟨b, -, rfl⟩ := List.mem_map.1 (List.mem_toFinset.1 hc)
  exact (fromUtf8_no_nul b).1

theorem conncheck_ids_hold_no_nul_sample :
    reqFinished (.success (.list [.byteArray [0x61, 0, 0x62]])) = .ok {"a"} ∧
      ∀ c ∈ ({"a"} : CidSet), '\x00' ∉ c.data :=
  ⟨by decide, conncheck_ids_hold_no_nul (v := .list [.byteArray [0x61, 0, 0x62]]) (by decide)⟩

end Pushpin.ControlRequest
