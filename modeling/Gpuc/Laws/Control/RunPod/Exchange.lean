import Gpuc.Control.RunPod

/-!
# What an exchange with the RunPod API comes to

`Opens` and `Answers` say how a request ends that is not an error of the client's own: with an answer, or
with an exception that no handler of `_open` and `_json` looks for. Each rule is one way for the API to
answer. `openBy` and `json` do what they say (`openBy_eq`, `json_eq`), and raise a `ProviderError` where
they say nothing (`opens_or_refuses`, `answers_or_refuses`).
-/

set_option autoImplicit false

namespace Gpuc.Control.RunPod

open Gpuc.Basis

section Law
variable {σ : Type} (api : Api σ) (lib : Library)

/-- **A request is answered, or an exception is let through**, with so many attempts left: one of
`urlopen` that is no `OSError`, one of reading an error's body, a `Retry-After` that is no number, or one
of the sleep it asks for. -/
inductive Opens (request : Request) : Nat → σ → Except Foreign Response → σ → Prop
  | answered {n : Nat} {s s' : σ} {response : Response}
      (hopen : api.urlopen request s = (.answered response, s')) :
      Opens request (n + 1) s (.ok response) s'
  | raised {n : Nat} {s s' : σ} {e : Foreign} (hopen : api.urlopen request s = (.raised e, s'))
      (he : e ≠ .os) : Opens request (n + 1) s (.error e) s'
  | unread {n : Nat} {s s' : σ} {code : Int} {retryAfter : Option String} {e : Foreign}
      (hopen : api.urlopen request s = (.httpError code retryAfter (.error e), s')) :
      Opens request (n + 1) s (.error e) s'
  | noNumber {n : Nat} {s s' : σ} {retryAfter : Option String}
      (hopen : api.urlopen request s = (.httpError 429 retryAfter (.ok ()), s')) (hleft : 4 - n < 4)
      (hpause : retryPause lib (4 - n) retryAfter = none) :
      Opens request (n + 1) s (.error .value) s'
  | unslept {n : Nat} {s s₁ s' : σ} {retryAfter : Option String} {pause : Float64} {e : Foreign}
      (hopen : api.urlopen request s = (.httpError 429 retryAfter (.ok ()), s₁)) (hleft : 4 - n < 4)
      (hpause : retryPause lib (4 - n) retryAfter = some pause)
      (hsleep : api.sleep pause s₁ = (.error e, s')) : Opens request (n + 1) s (.error e) s'
  | again {n : Nat} {s s₁ s₂ s' : σ} {retryAfter : Option String} {pause : Float64}
      {answer : Except Foreign Response}
      (hopen : api.urlopen request s = (.httpError 429 retryAfter (.ok ()), s₁)) (hleft : 4 - n < 4)
      (hpause : retryPause lib (4 - n) retryAfter = some pause)
      (hsleep : api.sleep pause s₁ = (.ok (), s₂)) (hrest : Opens request n s₂ answer s') :
      Opens request (n + 1) s answer s'

/-- **A body is decoded, or an exception is let through**: of the request, of reading the body, of a
`RateLimit` with a number that is too long, of the sleep it asks for, or of decoding. -/
inductive Answers (request : Request) (s : σ) : Except Foreign Json → σ → Prop
  | unopened {e : Foreign} {s' : σ} (hopens : Opens api lib request 5 s (.error e) s') :
      Answers request s (.error e) s'
  | unread {response : Response} {e : Foreign} {s' : σ}
      (hopens : Opens api lib request 5 s (.ok response) s') (hraw : response.raw = .error e)
      (he : e ≠ .os) : Answers request s (.error e) s'
  | longWindow {response : Response} {body : Body} {s' : σ}
      (hopens : Opens api lib request 5 s (.ok response) s') (hraw : response.raw = .ok body)
      (hpause : rateLimitPause response.rateLimit = none) : Answers request s (.error .value) s'
  | unslept {response : Response} {body : Body} {pause : Nat} {e : Foreign} {s₁ s' : σ}
      (hopens : Opens api lib request 5 s (.ok response) s₁) (hraw : response.raw = .ok body)
      (hpause : rateLimitPause response.rateLimit = some pause) (hlong : pause ≠ 0)
      (hsleep : api.sleep (.finite pause) s₁ = (.error e, s')) : Answers request s (.error e) s'
  | body {response : Response} {body : Body} {s' : σ}
      (hopens : Opens api lib request 5 s (.ok response) s') (hraw : response.raw = .ok body)
      (hpause : rateLimitPause response.rateLimit = some 0) : Answers request s (decode lib body) s'
  | bodyLater {response : Response} {body : Body} {pause : Nat} {s₁ s' : σ}
      (hopens : Opens api lib request 5 s (.ok response) s₁) (hraw : response.raw = .ok body)
      (hpause : rateLimitPause response.rateLimit = some pause) (hlong : pause ≠ 0)
      (hsleep : api.sleep (.finite pause) s₁ = (.ok (), s')) :
      Answers request s (decode lib body) s'

variable {api lib} {request : Request} {s s' : σ}

/-- What an exchange comes to is what `_open` returns or raises. -/
theorem openBy_eq {n : Nat} {answer : Except Foreign Response}
    (h : Opens api lib request n s answer s') :
    openBy api lib request n s = (answer.mapError .foreign, s') := by
  induction h with
  | answered hopen => rw [openBy, hopen]; rfl
  | @raised n s s' e hopen he =>
    rw [openBy, hopen]
    cases e with
    | os => exact absurd rfl he
    | _ => rfl
  | unread hopen => rw [openBy, hopen]; rfl
  | noNumber hopen hleft hpause =>
    rw [openBy, hopen]
    dsimp only
    rw [if_pos ⟨rfl, hleft⟩, hpause]
    rfl
  | unslept hopen hleft hpause hsleep =>
    rw [openBy, hopen]
    dsimp only
    rw [if_pos ⟨rfl, hleft⟩, hpause]
    dsimp only
    rw [hsleep]
    rfl
  | again hopen hleft hpause hsleep _ ih =>
    rw [openBy, hopen]
    dsimp only
    rw [if_pos ⟨rfl, hleft⟩, hpause]
    dsimp only
    rw [hsleep]
    exact ih

/-- A computation raises a `ProviderError`. -/
def Refuses {α : Type} (answer : Except Failure α) : Prop := ∃ e, answer = .error e ∧ e.isProvider = true

/-- An exchange that comes to nothing of these is a `ProviderError`. -/
theorem opens_or_refuses (api : Api σ) (lib : Library) (request : Request) (s : σ) {n : Nat} (hn : n ≠ 0) :
    (∃ answer s', Opens api lib request n s answer s') ∨ Refuses (openBy api lib request n s).1 := by
  induction n generalizing s with
  | zero => exact absurd rfl hn
  | succ n ih =>
    rcases hopen : api.urlopen request s with ⟨response | ⟨code, retryAfter, e | ⟨⟩⟩ | e, s₁⟩
    · exact .inl ⟨_, _, .answered hopen⟩
    · exact .inl ⟨_, _, .unread hopen⟩
    · by_cases hwait : code = 429 ∧ 4 - n < 4
      · obtain ⟨rfl, hleft⟩ := hwait
        cases hpause : retryPause lib (4 - n) retryAfter with
        | none => exact .inl ⟨_, _, .noNumber hopen hleft hpause⟩
        | some pause =>
          rcases hsleep : api.sleep pause s₁ with ⟨e | ⟨⟩, s₂⟩
          · exact .inl ⟨_, _, .unslept hopen hleft hpause hsleep⟩
          · -- the last attempt is not waited out, so that there is one more
            rcases ih s₂ (by omega) with ⟨answer, s', hrest⟩ | hrefuses
            · exact .inl ⟨answer, s', .again hopen hleft hpause hsleep hrest⟩
            · right
              rw [openBy, hopen]
              dsimp only
              rw [if_pos ⟨rfl, hleft⟩, hpause]
              dsimp only
              rw [hsleep]
              exact hrefuses
      · right
        rw [openBy, hopen]
        dsimp only
        rw [if_neg hwait]
        split
        · exact ⟨_, rfl, rfl⟩
        · exact ⟨_, rfl, rfl⟩
    · by_cases he : e = .os
      · subst he
        right
        rw [openBy, hopen]
        exact ⟨_, rfl, rfl⟩
      · exact .inl ⟨_, _, .raised hopen he⟩

/-- What an exchange comes to is what `_json` returns or raises. -/
theorem json_eq {answer : Except Foreign Json} (h : Answers api lib request s answer s') :
    json api lib request s = (answer.mapError .foreign, s') := by
  cases h with
  | unopened hopens => rw [json, openBy_eq hopens]; rfl
  | @unread response e s' hopens hraw he =>
    rw [json, openBy_eq hopens]
    dsimp only [Except.mapError]
    rw [hraw]
    cases e with
    | os => exact absurd rfl he
    | _ => rfl
  | longWindow hopens hraw hpause =>
    rw [json, openBy_eq hopens]
    dsimp only [Except.mapError]
    rw [hraw]
    dsimp only
    rw [hpause]
  | unslept hopens hraw hpause hlong hsleep =>
    rw [json, openBy_eq hopens]
    dsimp only [Except.mapError]
    rw [hraw]
    dsimp only
    rw [hpause]
    dsimp only
    rw [if_neg hlong, hsleep]
  | body hopens hraw hpause =>
    rw [json, openBy_eq hopens]
    dsimp only [Except.mapError]
    rw [hraw]
    dsimp only
    rw [hpause]
    rfl
  | bodyLater hopens hraw hpause hlong hsleep =>
    rw [json, openBy_eq hopens]
    dsimp only [Except.mapError]
    rw [hraw]
    dsimp only
    rw [hpause]
    dsimp only
    rw [if_neg hlong, hsleep]

theorem answers_or_refuses (api : Api σ) (lib : Library) (request : Request) (s : σ) :
    (∃ answer s', Answers api lib request s answer s') ∨ Refuses (json api lib request s).1 := by
  rcases opens_or_refuses api lib request s (n := 5) (by decide) with
    ⟨e | response, s₁, hopens⟩ | ⟨e, hopen, he⟩
  · exact .inl ⟨_, _, .unopened hopens⟩
  · rcases hraw : response.raw with e | body
    · by_cases he : e = .os
      · subst he
        right
        rw [json, openBy_eq hopens]
        dsimp only [Except.mapError]
        rw [hraw]
        exact ⟨_, rfl, rfl⟩
      · exact .inl ⟨_, _, .unread hopens hraw he⟩
    · left
      cases hpause : rateLimitPause response.rateLimit with
      | none => exact ⟨_, _, .longWindow hopens hraw hpause⟩
      | some pause =>
        by_cases hlong : pause = 0
        · exact ⟨_, _, .body hopens hraw (hlong ▸ hpause)⟩
        · rcases hsleep : api.sleep (.finite pause) s₁ with ⟨e | ⟨⟩, s₂⟩
          · exact ⟨_, _, .unslept hopens hraw hpause hlong hsleep⟩
          · exact ⟨_, _, .bodyLater hopens hraw hpause hlong hsleep⟩
  · right
    rcases hrun : openBy api lib request 5 s with ⟨answer, s₁⟩
    rw [hrun] at hopen
    dsimp only at hopen
    subst hopen
    rw [json, hrun]
    exact ⟨e, rfl, he⟩

end Law

end Gpuc.Control.RunPod
