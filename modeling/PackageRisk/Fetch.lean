import PackageRisk.Session
import PackageRisk.Url.Reference

/-!
# Fetching

A URL is fetched by asking the network for it, and for the places that responses refer to if
they are followed. No more than twenty such places are visited.
-/

namespace PackageRisk

/-- How many times a response may refer to another place. -/
def redirectLimit : Nat := 20

/-- Whether a status refers to another place. -/
def isRedirect (status : Nat) : Bool :=
  [301, 302, 303, 307, 308].contains status

/-- Whether a status tells of success. -/
def isSuccess (status : Nat) : Bool :=
  200 ≤ status && status < 300

namespace Session

/-- Asks for a reference, and `n` times for the place that a response refers to. Where that is
no URL the response is broken, also if it is not followed. -/
def fetchWithin (follow : Bool) : (n : Nat) → Url.Reference → Session Reply
  | n, r => do
    let reply ← request r.text
    match reply with
    | .response status location _ =>
      if !r.isComplete then
        fail (.fault (.wrongValue ("unknown url type: " ++ Text.quoted r.text)))
      else match isRedirect status, location with
        | true, some place =>
          match r.redirected place with
          | .error why => return .broken ("Invalid URL in location header: " ++ why ++ ".")
          | .ok next =>
            if !follow then return reply
            else match n with
              | 0 => return .broken "Exceeded maximum allowed redirects."
              | n + 1 => fetchWithin follow n next
        | _, _ => return reply
    | _ => return reply

/-- Fetches a URL. -/
def fetch (follow : Bool) (url : String) : Session Reply :=
  match Url.Reference.parse url with
  | .error why => fail (.fault (.notUrl why))
  | .ok r => fetchWithin follow redirectLimit r.toRequest

end Session

end PackageRisk
