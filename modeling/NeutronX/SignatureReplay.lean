import NeutronX.CosignedOrders
import NeutronX.OrderService

/-!
# What one swapper signature is worth

The swapper signs eight fields with one nonce; the order service cosigns
orders of eleven, and refuses an order a second time only if all eleven
are the same. The reactor keeps what remains of an order under the hash of
the eleven, and a fill does not use the nonce up. So if no request brings
back a signed message under another price curve or fee tier, the message
has one order, and the swapper loses at most the amount it signed; a
request that does brings it a second order for the same amount.
-/

namespace NeutronX

open Evm Function OrderService

namespace System

variable {κ W : Type} [DecidableEq κ] {d : Deployment κ W}

/-! ## One order for a message -/

/-- No cosigned order has the fields the swapper signed, with another price
curve or fee tier. -/
def Novel (q : Answers) (orders : List (OrderRow κ)) (dto : CreateOrderRequest) : Prop :=
  ∀ row ∈ orders, swapperOrder row.order = swapperOrder dto.order.info →
    row.order = cosignedOrder q dto

/-- Every request that is accepted is novel when it is. -/
def NeverReplayed (e : Ethers) (a : OrderAuth κ) :
    List (Answers × CreateOrderRequest) → List (OrderRow κ) → Prop
  | [], _ => True
  | (q, dto) :: requests, orders =>
      match createOrder e a q orders dto with
      | .ok (orders', _) => Novel q orders dto ∧ NeverReplayed e a requests orders'
      | .error _ => NeverReplayed e a requests orders

instance (q : Answers) (orders : List (OrderRow κ)) (dto : CreateOrderRequest) :
    Decidable (Novel q orders dto) := inferInstanceAs (Decidable (∀ row ∈ orders, _))

instance decidableNeverReplayed (e : Ethers) (a : OrderAuth κ) :
    ∀ requests orders, Decidable (NeverReplayed e a requests orders)
  | [], _ => isTrue trivial
  | (q, dto) :: requests, orders =>
      match h : createOrder e a q orders dto with
      | .ok (orders', _) =>
          have := decidableNeverReplayed e a requests orders'
          decidable_of_iff (Novel q orders dto ∧ NeverReplayed e a requests orders')
            (by rw [NeverReplayed, h])
      | .error _ =>
          have := decidableNeverReplayed e a requests orders
          decidable_of_iff (NeverReplayed e a requests orders) (by rw [NeverReplayed, h])

/-- Cosigned orders with the same signed fields are the same order. -/
def OnePerMessage (orders : List (OrderRow κ)) : Prop :=
  ∀ row ∈ orders, ∀ row' ∈ orders, swapperOrder row.order = swapperOrder row'.order →
    row.order = row'.order

/-- The step lemma of the table. -/
theorem onePerMessage_createOrder {e : Ethers} {a : OrderAuth κ} {q : Answers}
    {orders orders' : List (OrderRow κ)} {dto : CreateOrderRequest} {hash : κ}
    (hone : OnePerMessage orders) (hnovel : Novel q orders dto)
    (h : createOrder e a q orders dto = .ok (orders', hash)) : OnePerMessage orders' := by
  obtain ⟨-, -, new, rfl, -, -, horder, -⟩ := createOrder_spec h
  have hnew : ∀ row ∈ orders, swapperOrder row.order = swapperOrder new.order →
      row.order = new.order := by
    intro row hrow hsame
    rw [horder] at hsame ⊢
    exact hnovel row hrow hsame
  intro row hrow row' hrow' hsame
  rcases List.mem_cons.mp hrow with hfirst | hold
  · rcases List.mem_cons.mp hrow' with hfirst' | hold'
    · rw [hfirst, hfirst']
    · rw [hfirst] at hsame ⊢
      exact (hnew row' hold' hsame.symm).symm
  · rcases List.mem_cons.mp hrow' with hfirst' | hold'
    · rw [hfirst'] at hsame ⊢
      exact hnew row hold hsame
    · exact hone row hold row' hold' hsame

/-- The run lemma of the table. -/
theorem onePerMessage_createOrders {e : Ethers} {a : OrderAuth κ} :
    ∀ {requests : List (Answers × CreateOrderRequest)} {orders : List (OrderRow κ)},
      OnePerMessage orders → NeverReplayed e a requests orders →
      OnePerMessage (createOrders e a requests orders)
  | [], _, hone, _ => hone
  | (q, dto) :: requests, orders, hone, hnever => by
      rw [NeverReplayed] at hnever
      rw [createOrders]
      cases h : createOrder e a q orders dto with
      | ok r =>
          obtain ⟨orders', hash⟩ := r
          rw [h] at hnever
          exact onePerMessage_createOrders (onePerMessage_createOrder hone hnever.1 h) hnever.2
      | error text =>
          rw [h] at hnever
          exact onePerMessage_createOrders hone hnever

/-! ## What is pulled under a message -/

/-- The input pulled for all orders with the signed fields `m`. -/
def pulledUnder (m : SwapperOrder) : List TraceEvent → Nat
  | [] => 0
  | .inputPulled i _ amount _ :: es =>
      (if swapperOrder i = m then amount else 0) + pulledUnder m es
  | .orderVerified _ _ :: es => pulledUnder m es
  | .outputCredited _ _ _ _ :: es => pulledUnder m es

/-- If all pulls under `m` are for one order, they are the pulls for it. -/
theorem pulledUnder_le {m : SwapperOrder} {info : OrderInfo} {es : List TraceEvent}
    (h : ∀ i to_ amount leg, .inputPulled i to_ amount leg ∈ es → swapperOrder i = m → i = info) :
    pulledUnder m es ≤ pulled info es := by
  induction es with
  | nil => exact Nat.le_refl 0
  | cons e es ih =>
      have hrest : pulledUnder m es ≤ pulled info es := ih fun i to_ amount leg hmem =>
        h i to_ amount leg (List.mem_cons_of_mem _ hmem)
      cases e with
      | inputPulled i to_ amount leg =>
          have hhead : (if swapperOrder i = m then amount else 0)
              ≤ (if i = info then amount else 0) := by
            by_cases hm : swapperOrder i = m
            · rw [if_pos hm, if_pos (h i to_ amount leg (List.mem_cons_self ..) hm)]
            · rw [if_neg hm]
              exact Nat.zero_le _
          rw [pulledUnder, pulled]
          omega
      | orderVerified i sig => exact hrest
      | outputCredited i fill amount during => exact hrest

omit [DecidableEq κ] in
/-- A pull in a justified history is for an order the cosigner signed. -/
theorem TraceJustified.signed {es : List TraceEvent} (h : TraceJustified d es) {info : OrderInfo}
    {to_ : Address} {amount : Nat} {leg : Leg} (hmem : .inputPulled info to_ amount leg ∈ es) :
    ∃ sig, d.Signs info sig := by
  obtain ⟨newer, older, rfl⟩ := List.append_of_mem hmem
  obtain ⟨sig, -, hsigns⟩ := h.at_pull.verified
  exact ⟨sig, hsigns⟩

/-- The cosigner's signatures are those the order service stored. -/
def CosignsOnly (d : Deployment κ W) (orders : List (OrderRow κ)) : Prop :=
  ∀ info sig, d.Signs info sig → ∃ row ∈ orders, row.order = info

/-- **A swapper signature is worth the amount it signs**, if none of the
requests that were accepted brought a signed message back under another
price curve or fee tier: in every run on the orders that were cosigned, no
more than the signed amount is pulled for all orders of the message
together. -/
theorem signature_single_use {e : Ethers} {requests : List (Answers × CreateOrderRequest)}
    (hnever : NeverReplayed e d.toOrderAuth requests [])
    (hcosigns : CosignsOnly d (createOrders e d.toOrderAuth requests []))
    {s : World κ W} (h : Reachable d s) (m : SwapperOrder) :
    pulledUnder m s.trace ≤ m.inputAmount := by
  have hone : OnePerMessage (createOrders e d.toOrderAuth requests []) :=
    onePerMessage_createOrders (fun _ hrow => absurd hrow List.not_mem_nil) hnever
  have hjustified := (reachable_historyLaw h).justified
  have hcosigned : ∀ i to_ amount leg, .inputPulled i to_ amount leg ∈ s.trace →
      ∃ row ∈ createOrders e d.toOrderAuth requests [], row.order = i := by
    intro i to_ amount leg hmem
    obtain ⟨sig, hsig⟩ := hjustified.signed hmem
    exact hcosigns i sig hsig
  by_cases hany : ∃ info to_ amount leg,
      .inputPulled info to_ amount leg ∈ s.trace ∧ swapperOrder info = m
  · obtain ⟨info, to_, amount, leg, hmem, rfl⟩ := hany
    obtain ⟨row, hrow, rfl⟩ := hcosigned info to_ amount leg hmem
    have hle : pulledUnder (swapperOrder row.order) s.trace ≤ pulled row.order s.trace := by
      refine pulledUnder_le fun i to_ amount leg hmem' hsame => ?_
      obtain ⟨row', hrow', rfl⟩ := hcosigned i to_ amount leg hmem'
      exact hone row' hrow' row hrow hsame
    exact Nat.le_trans hle (reachable_inputLaw h row.order).pulled_le
  · -- nothing was pulled under the message
    have hnone : ∀ info, pulledUnder m s.trace ≤ pulled info s.trace := fun info =>
      pulledUnder_le fun i to_ amount leg hmem hsame =>
        absurd ⟨i, to_, amount, leg, hmem, hsame⟩ hany
    let info : OrderInfo := ⟨m.swapper, m.inputToken, m.inputAmount, m.outputToken,
      m.minOutputAmount, m.deadline, m.nonce, m.minFillBps, 0, 0, 0⟩
    exact Nat.le_trans (hnone info) (reachable_inputLaw h info).pulled_le

/-! ## One message, two orders -/

/-- The plain tokens under a cosigner that signed the given orders only. -/
def cosigning (orders : List (OrderRow OrderInfo)) : Deployment OrderInfo Ledger :=
  { Ledger.deployment with
    recover := fun orderHash sig =>
      if sig = [1] ∧ orderHash ∈ orders.map OrderRow.order then some 90 else none }

theorem cosigning_cosignsOnly (orders : List (OrderRow OrderInfo)) :
    CosignsOnly (cosigning orders) orders := by
  intro info sig hsigns
  have hrecover : (if sig = [1] ∧ info ∈ orders.map OrderRow.order then some (90 : Address)
      else none) = some 90 := hsigns.1
  split at hrecover
  · rename_i hmem
    obtain ⟨row, hrow, rfl⟩ := List.mem_map.mp hmem.2
    exact ⟨row, hrow, rfl⟩
  · cases hrecover

/-- A swapper, account 1, whose signature on anything is the byte 5. -/
def oneSwapper : Ethers where
  recoverAddress := fun _ sig => if sig = [5] then some 1 else none
  signOrder := fun _ => [1]
  formatUnits := fun amount _ => toString amount

/-- A chain on which everybody holds 2000 of everything and no pool exists. -/
def noPools : Answers where
  balanceOf := fun _ _ => .ok 2000
  decimals := fun _ => 18
  symbol := fun _ => "TKN"
  getPool := fun _ _ => .ok none

/-- A request with the swapper's one signature, at the given start price. -/
def requestAt (startPrice : Uint 128) : CreateOrderRequest where
  order := ⟨⟨1, 2, 1000, 3, 900, 100, 0, 0, startPrice, 0, 3000⟩, none⟩
  signature := [5]
  preferredAggregator := none

/-- The same swapper's request for the next nonce. -/
def nextRequest : CreateOrderRequest where
  order := ⟨⟨1, 2, 1000, 3, 900, 100, 1, 0, 10 ^ 18, 0, 3000⟩, none⟩
  signature := [5]
  preferredAggregator := none

/-- One message twice, of which the second request is refused, and another
one: both orders are registered and filled. -/
theorem signature_single_use_once :
    ∃ s : World OrderInfo Ledger, ∃ m m' : SwapperOrder, m ≠ m' ∧
      pulledUnder m s.trace = 1000 ∧ pulledUnder m s.trace ≤ m.inputAmount ∧
      pulledUnder m' s.trace = 1000 ∧ pulledUnder m' s.trace ≤ m'.inputAmount := by
  let requests := [(noPools, requestAt (10 ^ 18)), (noPools, requestAt (10 ^ 18)),
    (noPools, nextRequest)]
  let orders := createOrders oneSwapper Ledger.deployment.toOrderAuth requests []
  let d := cosigning orders
  let info := (requestAt (10 ^ 18)).order.info
  let next := nextRequest.order.info
  let ledger : Ledger := update₂ (update₂ (fun _ _ => 0) 2 1 2000) 3 7 2000
  let s := run d
    [.call (.leaf (.register ⟨7, by decide⟩ 200 ⟨info, [1]⟩ 1000)),
     .call (.leaf (.executePartialChunk ⟨7, by decide⟩ ⟨info, [1]⟩ 1000)),
     .call (.leaf (.register ⟨7, by decide⟩ 200 ⟨next, [1]⟩ 1000)),
     .call (.leaf (.executePartialChunk ⟨7, by decide⟩ ⟨next, [1]⟩ 1000))]
    (deployed d ledger ⟨10, 0⟩)
  have hnever : NeverReplayed oneSwapper d.toOrderAuth requests [] := by decide +kernel
  have hs : Reachable d s := ⟨_, _, _, rfl⟩
  have hpulled : pulledUnder (swapperOrder info) s.trace = 1000 := by decide +kernel
  have hpulled' : pulledUnder (swapperOrder next) s.trace = 1000 := by decide +kernel
  exact ⟨s, swapperOrder info, swapperOrder next, by decide, hpulled,
    signature_single_use hnever (cosigning_cosignsOnly orders) hs _, hpulled',
    signature_single_use hnever (cosigning_cosignsOnly orders) hs _⟩

/-- The signature again, with another start price: two orders are cosigned,
and 2000 units are pulled for a signature on 1000. -/
theorem signature_used_twice :
    ∃ (requests : List (Answers × CreateOrderRequest)) (orders : List (OrderRow OrderInfo))
      (d : Deployment OrderInfo Ledger) (s : World OrderInfo Ledger) (m : SwapperOrder),
      orders = createOrders oneSwapper d.toOrderAuth requests [] ∧
      (∀ request ∈ requests, request.2.signature = [5] ∧
        swapperOrder request.2.order.info = m) ∧
      CosignsOnly d orders ∧ Reachable d s ∧
      pulledUnder m s.trace = 2000 ∧ (m.inputAmount : Nat) = 1000 := by
  let requests := [(noPools, requestAt (10 ^ 18)), (noPools, requestAt (10 ^ 18 + 1))]
  let orders := createOrders oneSwapper Ledger.deployment.toOrderAuth requests []
  let d := cosigning orders
  let first := (requestAt (10 ^ 18)).order.info
  let second := (requestAt (10 ^ 18 + 1)).order.info
  let ledger : Ledger := update₂ (update₂ (fun _ _ => 0) 2 1 2000) 3 7 2001
  let s := run d
    [.call (.leaf (.register ⟨7, by decide⟩ 200 ⟨first, [1]⟩ 1000)),
     .call (.leaf (.executePartialChunk ⟨7, by decide⟩ ⟨first, [1]⟩ 1000)),
     .call (.leaf (.register ⟨7, by decide⟩ 200 ⟨second, [1]⟩ 1000)),
     .call (.leaf (.executePartialChunk ⟨7, by decide⟩ ⟨second, [1]⟩ 1000))]
    (deployed d ledger ⟨10, 0⟩)
  have hpulled : pulledUnder (swapperOrder first) s.trace = 2000 := by decide +kernel
  refine ⟨requests, orders, d, s, swapperOrder first, rfl, ?_, cosigning_cosignsOnly orders,
    ⟨_, _, _, rfl⟩, hpulled, rfl⟩
  intro request hrequest
  simp only [requests, List.mem_cons, List.not_mem_nil, or_false] at hrequest
  rcases hrequest with rfl | rfl
  · exact ⟨rfl, rfl⟩
  · exact ⟨rfl, rfl⟩

end System

end NeutronX
