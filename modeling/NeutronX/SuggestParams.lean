import Mathlib.Algebra.Order.BigOperators.Group.List
import Mathlib.Data.List.GetD
import NeutronX.Evm.Bisection
import NeutronX.WhaleFiller

/-!
# Suggested parameters

`POST /suggest-params` proposes the parameters of an order: a price curve
around the market, and the largest minimum for a chunk that still has the
order covered by the registered fillers. What is covered is found by
replaying an order against the quote servers of the fillers, each of which
asks its strategy.

The search is a bisection: it rests on the coverage not growing with the
minimum. The fillers are asked again for every candidate, so it also has
to do something sensible where their answers change meanwhile.
-/

namespace NeutronX

open Evm

/-! ## The fillers' quotes -/

namespace QuoteServer

structure QuoteRequest where
  inputToken : String
  outputToken : String
  inputAmount : Nat
  startPrice : Nat
  decayPerBlock : Nat
  currentBlock : Option Nat
  deadline : Option Nat
  minFillBps : Option Nat

structure FillerQuote where
  filler : String
  wouldFill : Bool
  fillAmount : Nat
  reason : String
  error : Option String

/-- An order without fills. -/
def buildFakeOrder (req : QuoteRequest) (currentBlock : Nat) : WhaleFiller.OrderInfo where
  inputToken := req.inputToken
  outputToken := req.outputToken
  inputAmount := req.inputAmount
  deadline := req.deadline.getD (currentBlock + 100)
  minFillBps := req.minFillBps.getD 100
  startPrice := req.startPrice
  decayPerBlock := req.decayPerBlock
  fills := []

/-- A filler behind its URL, with what it learns while it decides. -/
inductive Filler where
  | cow (q : CoWFiller.Answers) (getBlockNumber : Except String Nat)
  | whale (q : WhaleFiller.Answers) (getBlockNumber : Except String Nat)
  /-- does not answer within the time -/
  | unreachable (error : String)

/-- `POST /quote` of a filler. -/
def quote : Filler → QuoteRequest → Except String FillerQuote
  | .cow q getBlockNumber, req => do
      let currentBlock ← req.currentBlock.elim getBlockNumber .ok
      let decision ← CoWFiller.decide q (buildFakeOrder req currentBlock).toOrderInfo currentBlock
      return ⟨"CoWFiller", decision.shouldFill, decision.fillAmount, decision.reason, none⟩
  | .whale q getBlockNumber, req => do
      let currentBlock ← req.currentBlock.elim getBlockNumber .ok
      let decision ← WhaleFiller.decide q (buildFakeOrder req currentBlock) currentBlock
      return ⟨"WhaleFiller", decision.shouldFill, decision.fillAmount, decision.reason, none⟩
  | .unreachable error, _ => .error error

end QuoteServer

namespace FillerSim

open QuoteServer (QuoteRequest FillerQuote Filler)

/-- A row of the registry, with what is there to fetch. -/
structure FillerEntry where
  name : String
  fetch : QuoteRequest → Except String FillerQuote

/-- The registry's view of one of the repository's fillers: a quote that
fails is answered with status 500. -/
def entry (name : String) : Filler → FillerEntry
  | .unreachable error => ⟨name, fun _ => .error error⟩
  | f => ⟨name, fun req => (QuoteServer.quote f req).mapError fun _ => "HTTP 500"⟩

def fetchQuote (f : FillerEntry) (body : QuoteRequest) : FillerQuote :=
  match f.fetch body with
  | .ok q => q
  | .error e => ⟨f.name, false, 0, "filler unreachable", some e⟩

def willing (q : FillerQuote) : Nat := if q.wouldFill then q.fillAmount else 0

structure SimResult where
  quotes : List FillerQuote
  totalFillAmount : Nat
  remainingAmount : Nat
  remainingWouldFallback : Bool
  coverageBps : Nat

/-- Every filler is asked for the whole order, so what they would fill is
capped by it. -/
def simulateOrder (fillers : List FillerEntry) (body : QuoteRequest) : SimResult :=
  let quotes := fillers.map fun f => fetchQuote f body
  let totalFill := min (quotes.map willing).sum body.inputAmount
  { quotes := quotes
    totalFillAmount := totalFill
    remainingAmount := body.inputAmount - totalFill
    remainingWouldFallback := decide (0 < body.inputAmount - totalFill)
    coverageBps := if 0 < body.inputAmount then totalFill * 10000 / body.inputAmount else 0 }

end FillerSim

/-! ## The route -/

namespace SuggestParams

open QuoteServer (QuoteRequest FillerQuote Filler)
open FillerSim (FillerEntry simulateOrder)

def MIN_FILL_CANDIDATES : List Nat := [100, 250, 500, 1000, 2000, 3000, 5000, 7000, 10000]

def UINT32_MAX : Nat := 4294967295

/-- The body; a text that is missing is empty. -/
structure SuggestRequest where
  inputToken : String
  outputToken : String
  inputAmount : Option Nat
  deadlineBlocks : Option Nat
  targetCoverageBps : Option Nat
  premiumBps : Option Nat
  slippageBps : Option Nat

/-- What `getMarketRate` and the node answer. -/
structure Market where
  currentBlock : Nat
  /-- `rateToContract`, in floating point, of the market's rate moved by so
  many basis points -/
  price : Int → Nat

structure Suggestion where
  startPrice : Nat
  minOutputAmount : Nat
  decayPerBlock : Nat
  deadline : Nat
  minFillBps : Nat
  projectedCoverageBps : Nat
  meetsTarget : Bool
deriving DecidableEq

section Parameters

variable (b : SuggestRequest) (m : Market)

def deadlineBlocks : Nat := b.deadlineBlocks.getD 100
def targetCoverageBps : Nat := b.targetCoverageBps.getD 9000
def startPrice : Nat := m.price (b.premiumBps.getD 200)
def floorPrice : Nat := m.price (-(b.slippageBps.getD 100))
def deadline : Nat := m.currentBlock + deadlineBlocks b

/-- What the fillers would cover with a minimum: the order is replayed at
the floor price, ten blocks before its deadline. -/
def coverage (inputAmount : Nat) (fillers : List FillerEntry) (minFillBps : Nat) : Nat :=
  (simulateOrder fillers
    { inputToken := b.inputToken
      outputToken := b.outputToken
      inputAmount := inputAmount
      startPrice := floorPrice b m
      decayPerBlock := 0
      currentBlock := some (deadline b m - 10)
      deadline := some (deadline b m)
      minFillBps := some minFillBps }).coverageBps

end Parameters

/-- `coverageCache`, newest first -/
abbrev Cache := List (Nat × Nat)

/-- `simulate k` is what the fillers would cover when they are asked for
the `k`-th time. -/
def coverageAt (simulate : Nat → Nat → Nat) (minFillBps : Nat) (cache : Cache) : Nat × Cache :=
  match cache.lookup minFillBps with
  | some coverage => (coverage, cache)
  | none =>
      let coverage := simulate cache.length minFillBps
      (coverage, (minFillBps, coverage) :: cache)

def candidate (i : Nat) : Nat := MIN_FILL_CANDIDATES.getD i 0

/-- Whether a candidate still meets the target. -/
def meets (simulate : Nat → Nat → Nat) (target i : Nat) (cache : Cache) : Bool × Cache :=
  (decide (target ≤ (coverageAt simulate (candidate i) cache).1),
    (coverageAt simulate (candidate i) cache).2)

/-- The loop, with an empty cache. -/
def search (simulate : Nat → Nat → Nat) (target : Nat) : Option Nat × Cache :=
  bisect (meets simulate target) MIN_FILL_CANDIDATES.length 0 MIN_FILL_CANDIDATES.length none []

def chosenMinFillBps (best : Option Nat) : Nat :=
  match best with
  | some i => candidate i
  | none => candidate 0

/-- Answers with the status and the text of an error. `fillers k` is the
registry when it is asked for the `k`-th time. -/
def suggestParams (fillers : Nat → List FillerEntry) (market : Except String Market)
    (b : SuggestRequest) : Except (Nat × String) Suggestion :=
  match b.inputAmount with
  | none => .error (400, "Missing required fields: inputToken, outputToken, inputAmount")
  | some inputAmount =>
      if b.inputToken = "" ∨ b.outputToken = "" then
        .error (400, "Missing required fields: inputToken, outputToken, inputAmount")
      else
        match market with
        | .error e => .error (503, "Cannot price the pair: " ++ e)
        | .ok m =>
            -- the division of BigInts throws
            if deadlineBlocks b = 0 then .error (500, "Division by zero")
            else
              let simulate := fun k => coverage b m inputAmount (fillers k)
              let found := search simulate (targetCoverageBps b)
              let chosen := chosenMinFillBps found.1
              let projected := (coverageAt simulate chosen found.2).1
              .ok
                { startPrice := startPrice b m
                  minOutputAmount := inputAmount * floorPrice b m / 10 ^ 18
                  decayPerBlock :=
                    min ((startPrice b m - floorPrice b m) / deadlineBlocks b) UINT32_MAX
                  deadline := deadline b m
                  minFillBps := chosen
                  projectedCoverageBps := projected
                  meetsTarget := decide (targetCoverageBps b ≤ projected) }

/-! ## Coverage and the minimum -/

section Coverage

variable {req : QuoteRequest} {low high : Nat}

/-- What an answer counts for. -/
def amount (answer : Except String FillerQuote) : Nat :=
  match answer with
  | .ok q => FillerSim.willing q
  | .error _ => 0

theorem willing_fetchQuote (f : FillerEntry) (body : QuoteRequest) :
    FillerSim.willing (FillerSim.fetchQuote f body) = amount (f.fetch body) := by
  unfold FillerSim.fetchQuote amount
  cases f.fetch body with
  | ok q => rfl
  | error e => rfl

theorem amount_entry (name : String) (f : Filler) (body : QuoteRequest) :
    amount ((FillerSim.entry name f).fetch body) = amount (QuoteServer.quote f body) := by
  cases f with
  | unreachable error => rfl
  | cow q getBlockNumber =>
      show amount ((QuoteServer.quote (.cow q getBlockNumber) body).mapError _) = _
      cases QuoteServer.quote (.cow q getBlockNumber) body with
      | ok quoted => rfl
      | error e => rfl
  | whale q getBlockNumber =>
      show amount ((QuoteServer.quote (.whale q getBlockNumber) body).mapError _) = _
      cases QuoteServer.quote (.whale q getBlockNumber) body with
      | ok quoted => rfl
      | error e => rfl

/-- The Whale filler's quote is its decision. -/
theorem amount_whale (req : QuoteRequest) {q : WhaleFiller.Answers}
    {getBlockNumber : Except String Nat} {block : Nat} (hblock : req.currentBlock = some block) :
    amount (QuoteServer.quote (.whale q getBlockNumber) req)
      = WhaleFiller.filled
          (WhaleFiller.decide q (QuoteServer.buildFakeOrder req block) block) := by
  simp only [QuoteServer.quote, hblock, Option.elim_some]
  show amount (WhaleFiller.decide q (QuoteServer.buildFakeOrder req block) block >>= _) = _
  cases WhaleFiller.decide q (QuoteServer.buildFakeOrder req block) block with
  | ok r => rfl
  | error e => rfl

/-- One filler: what it would fill under a higher minimum it would fill
under a lower one. The CoW filler does not look at the minimum. -/
theorem amount_antitone (f : Filler) (req : QuoteRequest) {block : Nat}
    (hblock : req.currentBlock = some block)
    (hle : low ≤ high) :
    amount (QuoteServer.quote f { req with minFillBps := some high })
      ≤ amount (QuoteServer.quote f { req with minFillBps := some low }) := by
  cases f with
  | unreachable error => exact Nat.le_refl _
  | cow q getBlockNumber => exact Nat.le_refl _
  | whale q getBlockNumber =>
      rw [amount_whale { req with minFillBps := some high } hblock,
        amount_whale { req with minFillBps := some low } hblock]
      exact WhaleFiller.filled_antitone q (QuoteServer.buildFakeOrder req block) block hle

/-- **The coverage does not grow with the minimum.** -/
theorem coverage_antitone (b : SuggestRequest) (m : Market) (inputAmount : Nat)
    (registry : List (String × Filler)) (hle : low ≤ high) :
    coverage b m inputAmount (registry.map fun f => FillerSim.entry f.1 f.2) high
      ≤ coverage b m inputAmount (registry.map fun f => FillerSim.entry f.1 f.2) low := by
  unfold coverage FillerSim.simulateOrder
  dsimp only
  split
  · refine Nat.div_le_div_right (Nat.mul_le_mul_right _ (min_le_min_right _ ?_))
    simp only [List.map_map]
    refine List.sum_le_sum fun f hf => ?_
    simp only [Function.comp_apply, willing_fetchQuote, amount_entry]
    exact amount_antitone f.2 ⟨_, _, _, _, _, _, _, none⟩ rfl hle
  · exact Nat.le_refl _

end Coverage

/-! ## The search -/

section Search

variable {simulate : Nat → Nat → Nat} {target : Nat}

/-- What the cache says of a candidate. -/
def Said (target : Nat) (cache : Cache) (i : Nat) (passes : Bool) : Prop :=
  ∃ coverage, cache.lookup (candidate i) = some coverage ∧ passes = decide (target ≤ coverage)

/-- What is in the cache was simulated. -/
def Simulated (simulate : Nat → Nat → Nat) (cache : Cache) : Prop :=
  ∀ minFillBps coverage, cache.lookup minFillBps = some coverage →
    ∃ k, k < cache.length ∧ coverage = simulate k minFillBps

theorem coverageAt_lookup (minFillBps : Nat) (cache : Cache) :
    (coverageAt simulate minFillBps cache).2.lookup minFillBps
      = some (coverageAt simulate minFillBps cache).1 := by
  unfold coverageAt
  cases hlookup : cache.lookup minFillBps with
  | some coverage => exact hlookup
  | none => exact List.lookup_cons_self

theorem coverageAt_keeps {minFillBps other coverage : Nat} {cache : Cache}
    (h : cache.lookup other = some coverage) :
    (coverageAt simulate minFillBps cache).2.lookup other = some coverage := by
  unfold coverageAt
  cases hlookup : cache.lookup minFillBps with
  | some coverage' => exact h
  | none =>
      have hne : other ≠ minFillBps := by
        rintro rfl
        rw [hlookup] at h
        cases h
      show List.lookup other ((minFillBps, _) :: cache) = some coverage
      rw [List.lookup_cons, beq_false_of_ne hne]
      exact h

theorem coverageAt_simulated {minFillBps : Nat} {cache : Cache} (h : Simulated simulate cache) :
    Simulated simulate (coverageAt simulate minFillBps cache).2 := by
  unfold coverageAt
  cases hlookup : cache.lookup minFillBps with
  | some coverage => exact h
  | none =>
      intro other coverage hother
      show ∃ k, k < cache.length + 1 ∧ _
      by_cases heq : other = minFillBps
      · subst heq
        rw [List.lookup_cons_self] at hother
        cases hother
        exact ⟨cache.length, Nat.lt_succ_self _, rfl⟩
      · rw [List.lookup_cons, beq_false_of_ne heq] at hother
        obtain ⟨k, hk, hcoverage⟩ := h other coverage hother
        exact ⟨k, Nat.lt_succ_of_lt hk, hcoverage⟩

theorem coverageAt_length (minFillBps : Nat) (cache : Cache) :
    (coverageAt simulate minFillBps cache).2.length ≤ cache.length + 1 := by
  unfold coverageAt
  cases cache.lookup minFillBps with
  | some coverage => exact Nat.le_succ _
  | none => exact Nat.le_refl _

/-- The search ends at a cut of what the fillers answered, after at most
four simulations. -/
theorem search_cut (simulate : Nat → Nat → Nat) (target : Nat) :
    (search simulate target).2.length ≤ 4 ∧ Simulated simulate (search simulate target).2 ∧
    ∃ cut, Cut (Said target (search simulate target).2) MIN_FILL_CANDIDATES.length cut ∧
      (search simulate target).1 = lastBelow cut := by
  refine ⟨?_, ?_, ?_⟩
  · exact bisect_questions List.length (fun i cache => coverageAt_length _ cache) _ 4 _ _ _ _
      (by decide)
  · exact bisect_inv (I := Simulated simulate) (fun i cache h => coverageAt_simulated h) _ _ _ _ _
      fun _ _ h => by cases h
  · refine bisect_cut (Said target) (fun i cache => ⟨_, coverageAt_lookup _ cache, rfl⟩)
      (fun i cache j passes h => ?_) MIN_FILL_CANDIDATES.length 0 MIN_FILL_CANDIDATES.length []
      (Nat.le_refl _) (Nat.zero_le _) (Nat.le_refl _) (fun i h => by cases h)
      fun h => absurd h (Nat.lt_irrefl _)
    obtain ⟨coverage, hlookup, hpasses⟩ := h
    exact ⟨coverage, coverageAt_keeps hlookup, hpasses⟩

end Search

/-! ## What is suggested -/

theorem candidate_le {i j : Nat} (hij : i ≤ j) (hj : j < MIN_FILL_CANDIDATES.length) :
    candidate i ≤ candidate j := by
  have hall : ∀ j < MIN_FILL_CANDIDATES.length, ∀ i ≤ j, candidate i ≤ candidate j := by decide
  exact hall j hj i hij

theorem candidate_lt {i j : Nat} (hij : i < j) (hj : j < MIN_FILL_CANDIDATES.length) :
    candidate i < candidate j := by
  have hall : ∀ j < MIN_FILL_CANDIDATES.length, ∀ i < j, candidate i < candidate j := by decide
  exact hall j hj i hij

theorem mem_candidates {minFillBps : Nat} :
    minFillBps ∈ MIN_FILL_CANDIDATES ↔
      ∃ i, i < MIN_FILL_CANDIDATES.length ∧ candidate i = minFillBps := by
  rw [List.mem_iff_getElem]
  constructor
  · rintro ⟨i, hi, heq⟩
    exact ⟨i, hi, (List.getD_eq_getElem _ _ hi).trans heq⟩
  · rintro ⟨i, hi, heq⟩
    exact ⟨i, hi, (List.getD_eq_getElem _ _ hi).symm.trans heq⟩

/-- At a cut the chosen candidate is in the cache, and meets the target
unless the cut is below all of them. -/
theorem cached_of_cut {cache : Cache} {target cut : Nat}
    (h : Cut (Said target cache) MIN_FILL_CANDIDATES.length cut) :
    ∃ coverage, cache.lookup (candidate (cut - 1)) = some coverage ∧
      (target ≤ coverage ↔ 0 < cut) := by
  cases cut with
  | zero =>
      obtain ⟨coverage, hlookup, hfails⟩ := h.above (by decide)
      refine ⟨coverage, hlookup, fun hmeets => ?_, fun hpos => absurd hpos (Nat.lt_irrefl 0)⟩
      rw [decide_eq_true hmeets] at hfails
      cases hfails
  | succ i =>
      obtain ⟨coverage, hlookup, hpasses⟩ := h.below i rfl
      exact ⟨coverage, hlookup, fun _ => Nat.succ_pos i, fun _ => of_decide_eq_true hpasses.symm⟩

theorem chosenMinFillBps_lastBelow (cut : Nat) :
    chosenMinFillBps (lastBelow cut) = candidate (cut - 1) := by
  cases cut with
  | zero => rfl
  | succ i => rfl

/-- The answer of the route: what was computed, and what was found. -/
structure Suggested (fillers : Nat → List FillerEntry) (b : SuggestRequest) (m : Market)
    (inputAmount : Nat) (sug : Suggestion) : Prop where
  blocks : deadlineBlocks b ≠ 0
  startPrice : sug.startPrice = startPrice b m
  minOutputAmount : sug.minOutputAmount = inputAmount * floorPrice b m / 10 ^ 18
  decayPerBlock : sug.decayPerBlock
    = min ((SuggestParams.startPrice b m - floorPrice b m) / deadlineBlocks b) UINT32_MAX
  deadline : sug.deadline = deadline b m
  meetsTarget : sug.meetsTarget = true ↔ targetCoverageBps b ≤ sug.projectedCoverageBps
  /-- how often the fillers were asked -/
  simulations : (search (fun k => coverage b m inputAmount (fillers k))
    (targetCoverageBps b)).2.length ≤ 4
  /-- some cut of the candidates: the chosen one is the last below it, or the
  first of all, and what was answered then is what is reported -/
  found : ∃ cut, cut ≤ MIN_FILL_CANDIDATES.length ∧ sug.minFillBps = candidate (cut - 1) ∧
    (sug.meetsTarget = true ↔ 0 < cut) ∧
    (∃ k, k < 4 ∧
      coverage b m inputAmount (fillers k) sug.minFillBps = sug.projectedCoverageBps) ∧
    (cut < MIN_FILL_CANDIDATES.length → ∃ k, k < 4 ∧
      coverage b m inputAmount (fillers k) (candidate cut) < targetCoverageBps b)

theorem suggestParams_spec {fillers : Nat → List FillerEntry} {market : Except String Market}
    {b : SuggestRequest} {sug : Suggestion} (h : suggestParams fillers market b = .ok sug) :
    ∃ inputAmount m, b.inputAmount = some inputAmount ∧ market = .ok m ∧
      Suggested fillers b m inputAmount sug := by
  unfold suggestParams at h
  split at h
  · cases h
  rename_i inputAmount hinput
  split at h
  · cases h
  cases market with
  | error e => cases h
  | ok m =>
      dsimp only at h
      split at h
      · cases h
      rename_i hblocks
      obtain ⟨hlength, hsimulated, cut, hcut, hbest⟩ :=
        search_cut (fun k => coverage b m inputAmount (fillers k)) (targetCoverageBps b)
      have hsimulations := hlength
      generalize search (fun k => coverage b m inputAmount (fillers k)) (targetCoverageBps b)
        = found at h hlength hsimulated hcut hbest
      obtain ⟨projected, hlookup, hmeets⟩ := cached_of_cut hcut
      have hchosen : chosenMinFillBps found.1 = candidate (cut - 1) := by
        rw [hbest, chosenMinFillBps_lastBelow]
      have hprojected : (coverageAt (fun k => coverage b m inputAmount (fillers k))
          (candidate (cut - 1)) found.2).1 = projected := by
        unfold coverageAt
        rw [hlookup]
      rw [hchosen, hprojected] at h
      cases h
      refine ⟨inputAmount, m, hinput, rfl, hblocks, rfl, rfl, rfl, rfl, decide_eq_true_iff,
        hsimulations, cut, hcut.le, rfl, ?_, ?_, fun habove => ?_⟩
      · rw [decide_eq_true_iff]
        exact hmeets
      · obtain ⟨k, hk, hcoverage⟩ := hsimulated _ _ hlookup
        exact ⟨k, by omega, hcoverage.symm⟩
      · obtain ⟨coverage, hnext, hfails⟩ := hcut.above habove
        obtain ⟨k, hk, rfl⟩ := hsimulated _ _ hnext
        exact ⟨k, by omega, Nat.lt_of_not_le (of_decide_eq_false hfails.symm)⟩

/-- **The suggested minimum is the largest that meets the target.** A
suggestion rests on at most four simulations and reports what one of them
said of the minimum it suggests, whatever the fillers answer and however
their answers change meanwhile; where it meets the target, the next larger
candidate failed in one of them. Where the fillers are the repository's own and their answers do not
change, a candidate meets the target if and only if the suggestion says
that it does and the candidate is not above the suggested one. -/
theorem suggested_minFill {fillers : Nat → List FillerEntry} {market : Except String Market}
    {b : SuggestRequest} {sug : Suggestion} (h : suggestParams fillers market b = .ok sug) :
    ∃ inputAmount m, b.inputAmount = some inputAmount ∧ market = .ok m ∧
      (search (fun k => coverage b m inputAmount (fillers k)) (targetCoverageBps b)).2.length ≤ 4 ∧
      (sug.meetsTarget = true ↔ targetCoverageBps b ≤ sug.projectedCoverageBps) ∧
      (∃ k, k < 4 ∧
        coverage b m inputAmount (fillers k) sug.minFillBps = sug.projectedCoverageBps) ∧
      (∀ next ∈ MIN_FILL_CANDIDATES, sug.meetsTarget = true → sug.minFillBps < next →
        (∀ other ∈ MIN_FILL_CANDIDATES, sug.minFillBps < other → next ≤ other) →
        ∃ k, k < 4 ∧ coverage b m inputAmount (fillers k) next < targetCoverageBps b) ∧
      ∀ registry : List (String × Filler),
        (∀ k, fillers k = registry.map fun f => FillerSim.entry f.1 f.2) →
        ∀ minFillBps ∈ MIN_FILL_CANDIDATES,
          targetCoverageBps b ≤ coverage b m inputAmount (fillers 0) minFillBps ↔
            sug.meetsTarget = true ∧ minFillBps ≤ sug.minFillBps := by
  obtain ⟨inputAmount, m, hinput, hmarket, hsug⟩ := suggestParams_spec h
  obtain ⟨cut, hcut, hchosen, hmeets, hprojected, hnext⟩ := hsug.found
  refine ⟨inputAmount, m, hinput, hmarket, hsug.simulations, hsug.meetsTarget, hprojected, ?_, ?_⟩
  · intro next hmem htarget hlarger hleast
    obtain ⟨j, hj, rfl⟩ := mem_candidates.mp hmem
    have hpos := hmeets.mp htarget
    rw [hchosen] at hlarger hleast
    have hbelow : cut ≤ j := by
      by_contra hlt
      have hle := candidate_le (i := j) (j := cut - 1) (by omega) (by omega)
      omega
    have hle := hleast (candidate cut) (mem_candidates.mpr ⟨cut, by omega, rfl⟩)
      (candidate_lt (by omega) (by omega))
    have hge := candidate_le hbelow hj
    obtain rfl : j = cut := by
      by_contra hne
      have hlt := candidate_lt (i := cut) (j := j) (by omega) hj
      omega
    exact hnext hj
  · intro registry hregistry minFillBps hmem
    obtain ⟨j, hj, rfl⟩ := mem_candidates.mp hmem
    have hanti : ∀ {low high : Nat}, low ≤ high →
        coverage b m inputAmount (fillers 0) high ≤ coverage b m inputAmount (fillers 0) low := by
      intro low high hle
      rw [hregistry 0]
      exact coverage_antitone b m inputAmount registry hle
    have hsame : ∀ k, fillers k = fillers 0 := fun k => by rw [hregistry k, hregistry 0]
    rw [hmeets, hchosen]
    constructor
    · intro hpass
      by_contra hfails
      have hlarger : cut ≤ j := by
        by_contra hlt
        exact hfails ⟨by omega, candidate_le (by omega) (by omega)⟩
      obtain ⟨k, -, hshort⟩ := hnext (by omega)
      rw [hsame k] at hshort
      have hle := hanti (candidate_le hlarger hj)
      omega
    · rintro ⟨hpos, hle⟩
      obtain ⟨k, -, hcoverage⟩ := hprojected
      rw [hsame k, hchosen] at hcoverage
      have hpass := hsug.meetsTarget.mp (hmeets.mpr hpos)
      have hge := hanti hle
      omega

/-- A Whale filler with 10000 USDC pays half of it, for two of four WETH:
half of the order is covered with a minimum of up to one half. -/
theorem suggested_minFill_half :
    ∃ sug m fillers b, suggestParams fillers (.ok m) b = .ok sug ∧ sug.minFillBps = 5000 ∧
      sug.meetsTarget = true ∧
      ∀ minFillBps ∈ MIN_FILL_CANDIDATES,
        5000 ≤ coverage b m (4 * 10 ^ 18) (fillers 0) minFillBps ↔ minFillBps ≤ 5000 := by
  let m : Market := ⟨1000, fun bps => (2500 * 10 ^ 6 * (10000 + bps) / 10000).toNat⟩
  let registry : List (String × Filler) :=
    [("CoWFiller", .unreachable "timeout"),
     ("WhaleFiller", .whale ⟨fun _ => .ok (10000 * 10 ^ 6), fun _ _ _ => ""⟩ (.ok 1000))]
  let fillers : Nat → List FillerEntry :=
    fun _ => registry.map fun f => FillerSim.entry f.1 f.2
  let b : SuggestRequest :=
    ⟨CoWFiller.WETH, CoWFiller.USDC, some (4 * 10 ^ 18), none, some 5000, none, none⟩
  have hreturns : Returns (suggestParams fillers (.ok m) b)
      fun sug => sug.minFillBps = 5000 ∧ sug.meetsTarget = true := by decide +kernel
  obtain ⟨sug, h, hchosen, hmeets⟩ := hreturns
  obtain ⟨inputAmount, m', hinput, hmarket, -, -, -, -, hown⟩ := suggested_minFill h
  cases hinput
  cases hmarket
  refine ⟨sug, m, fillers, b, h, hchosen, hmeets, fun minFillBps hmem => ?_⟩
  have hiff := hown registry (fun _ => rfl) minFillBps hmem
  rw [hmeets, hchosen] at hiff
  exact hiff.trans (and_iff_right rfl)

end SuggestParams

end NeutronX
