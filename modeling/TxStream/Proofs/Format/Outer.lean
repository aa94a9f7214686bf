import TxStream.Proofs.Decoder.Delivery
import TxStream.Proofs.Format.Front

/-!
The header of the outer list tells nothing. It has to be there and to be that of a list, and the
length that it announces is not compared with anything.

* `seen_run_outer`: after the outer header, a decoder goes on as if there had been none;
* `fed_outer`: so what chunks come to is a matter of the bytes within the outer list;
* `outer_headers_agree`: one outer header is as good as another.
-/

namespace TxStream

namespace Decoder

variable {header body : Bytes} {n : Nat} {cs : List Bytes}

/-- After the outer header, a decoder goes on as if there had been none. -/
lemma seen_run_outer (hdec : Header.decode header = .ok ⟨n, true, header.length⟩) (body : Bytes) :
    ((fresh .init).run (.start (header ++ body))).seen
      = ((fresh .envelope).run (.start body)).seen := by
  have hstep : (fresh .init).step (.start (header ++ body)) =
      ⟨fresh .envelope, ((Cursor.start (header ++ body)).take header.length).2, none, []⟩ := by
    have hdec' : Header.decode (Cursor.start (header ++ body)).ahead
        = .ok ⟨n, true, header.length⟩ := Header.decode_append hdec body
    rw [step_init, withHeader_of_decode hdec']
    rfl
  have hahead : ((Cursor.start (header ++ body)).take header.length).2.ahead
      = (Cursor.start body).ahead := List.drop_left
  have hsound : (fresh .envelope).Sound := ⟨rfl, rfl⟩
  rw [seen_run_of_goesOn (by rw [hstep]), hstep, List.nil_append, seen_run_congr hsound hahead]

/-- **What chunks come to is a matter of the bytes within the outer list.** -/
lemma fed_outer (hdec : Header.decode header = .ok ⟨n, true, header.length⟩)
    (hcs : cs.flatten = header ++ body) :
    fed ⟨.init, {}, (header ++ body).length, {}⟩ cs =
      ((closing ((fresh .envelope).run (.start body)).seen).1,
        (closing ((fresh .envelope).run (.start body)).seen).2.map fun r => r.2.settled) := by
  have hw := waiting_init (header ++ body).length
  rw [fed_flatten hw (Nat.le_of_eq (congrArg List.length hcs)), hcs, fed_singleton,
    hw.update_eq (Nat.le_refl _), seen_readChunk, ← seen_run_outer hdec body, Nat.sub_self]
  rfl

/-- **One outer header is as good as another.** Two transactions that differ only in the header of
the outer list, whatever its form and whatever length it announces, are decoded alike, with the same
record or the same failure. However they are cut into chunks, the same is reported of them, and they
come to the same end. -/
theorem outer_headers_agree {header₁ header₂ body : Bytes} {n₁ n₂ : Nat}
    (hdec₁ : Header.decode header₁ = .ok ⟨n₁, true, header₁.length⟩)
    (hdec₂ : Header.decode header₂ = .ok ⟨n₂, true, header₂.length⟩)
    (hle₁ : (header₁ ++ body).length ≤ maxLength) (hle₂ : (header₂ ++ body).length ≤ maxLength) :
    deserialize (header₁ ++ body) = deserialize (header₂ ++ body) ∧
      ∃ d₁ d₂, create (header₁ ++ body).length = .ok d₁ ∧
        create (header₂ ++ body).length = .ok d₂ ∧
        ∀ cs ds : List Bytes, cs.flatten = header₁ ++ body → ds.flatten = header₂ ++ body →
          d₁.fed cs = d₂.fed ds ∧ (d₁.feed cs).bind finish = (d₂.feed ds).bind finish := by
  have hfed : ∀ cs ds : List Bytes, cs.flatten = header₁ ++ body → ds.flatten = header₂ ++ body →
      fed ⟨.init, {}, (header₁ ++ body).length, {}⟩ cs
        = fed ⟨.init, {}, (header₂ ++ body).length, {}⟩ ds := fun cs ds hcs hds =>
    (fed_outer hdec₁ hcs).trans (fed_outer hdec₂ hds).symm
  have hwhole := hfed [header₁ ++ body] [header₂ ++ body] List.flatten_singleton
    List.flatten_singleton
  refine ⟨deserialize_eq_of_fed_eq (create_eq hle₁) (create_eq hle₂) hwhole, _, _, create_eq hle₁,
    create_eq hle₂, fun cs ds hcs hds => ?_⟩
  exact ⟨hfed cs ds hcs hds, bind_finish_of_fed_eq (hfed cs ds hcs hds)⟩

/-- An outer header may announce far more than there is: nine empty items are a transaction. -/
theorem outer_headers_agree_empty_items :
    Header.decode [0xc0] = .ok ⟨0, true, 1⟩ ∧ Header.decode [0xf8, 0xff] = .ok ⟨255, true, 2⟩ ∧
      (([0xc0] : Bytes) ++ List.replicate 9 0x80).length ≤ maxLength ∧
      (([0xf8, 0xff] : Bytes) ++ List.replicate 9 0x80).length ≤ maxLength ∧
      deserialize ([0xf8, 0xff] ++ List.replicate 9 0x80) = .ok {} := by
  have hdec₁ : Header.decode [0xc0] = .ok ⟨0, true, 1⟩ := by decide
  have hdec₂ : Header.decode [0xf8, 0xff] = .ok ⟨255, true, 2⟩ := by decide
  have hle₁ : (([0xc0] : Bytes) ++ List.replicate 9 0x80).length ≤ maxLength := by decide
  have hle₂ : (([0xf8, 0xff] : Bytes) ++ List.replicate 9 0x80).length ≤ maxLength := by decide
  have h : deserialize ([0xc0] ++ List.replicate 9 0x80) = .ok {} := by cbv
  exact ⟨hdec₁, hdec₂, hle₁, hle₂, (outer_headers_agree hdec₁ hdec₂ hle₁ hle₂).1 ▸ h⟩

end Decoder

end TxStream
