import AuthServer.Account.Login
import AuthServer.Common.RateLimit

/-!
# The login endpoints

`POST /auth/login` with a JSON body and `POST /login` with a form. Only the first one counts
attempts.
-/

namespace AuthServer

open Handler

/-- The body of `POST /auth/login`. -/
structure LoginRequest where
  identifier : Option String := none
  email : Option String := none
  password : Option String := none
  deriving DecidableEq

/-- The identifier comes before the email unless it is blank. -/
def LoginRequest.resolveIdentifier (body : LoginRequest) : Option String :=
  (body.identifier.filter fun s => Text.trim s != "").or body.email

/-- The form of `POST /login`. -/
structure LoginForm where
  email : Option String := none
  password : Option String := none
  returnTo : Option String := none
  csrfToken : Option String := none
  deriving DecidableEq

/-- The responses of `POST /login`. -/
inductive LoginPageResponse where
  | redirect (target : String) (session : Option UserSession)
  | page (email csrf error : String)
  deriving DecidableEq

namespace LoginResource

variable (env : Env)

/-- The name under which attempts for an identifier are counted. -/
def attemptName (identifier : String) : String := env.toLowercase (Text.trim identifier)

/-- The check keyed by the identifier, if there is one. -/
def applyEmailLimit (identifier : Option String) : Handler Unit :=
  match identifier.filter fun id => Text.trim id != "" with
  | none => pure ()
  | some id =>
    applyLimit (Keys.rlLoginEmail (attemptName env id)) env.ratelimit.loginEmailMax
      env.ratelimit.loginEmailWindow

/-- `POST /auth/login`: both checks, then the login; no session means `401`. -/
def login (req : HttpRequest) (body : LoginRequest) : Handler (Option LoginResponse) := do
  applyEmailLimit env body.resolveIdentifier
  applyIpLimit req Keys.rlLoginIp env.ratelimit.loginIpMax env.ratelimit.loginIpWindow
  AuthServer.login env body.resolveIdentifier body.password req.clientIp req.userAgent

end LoginResource

namespace LoginPage

variable (env : Env)

/-- Two equal texts that are not empty. -/
def csrfMatches (form cookie : Option String) : Bool :=
  match form, cookie with
  | some a, some b => a != "" && b != "" && a == b
  | _, _ => false

/-- Only paths of this server are accepted. That the path also parses as an absolute URL cannot
happen once it begins with a slash. -/
def safeRedirect (returnTo : Option String) : String :=
  match returnTo with
  | none => "/"
  | some s =>
    if Text.trim s = "" then "/"
    else match s.toList with
      | '/' :: '/' :: _ | '/' :: '\\' :: _ => "/"
      | '/' :: _ => s
      | _ => "/"

/-- `POST /login`: the form token, then the login. -/
def submitLogin (req : HttpRequest) (form : LoginForm) : Handler LoginPageResponse := do
  if !csrfMatches form.csrfToken req.csrfCookie then
    return .redirect "/login?error=session_expired" none
  match ← LoginService.authenticate env form.email form.password with
  | none =>
    return .page (form.email.getD "") (req.csrfCookie.getD "") "Invalid email or password"
  | some user =>
    let session ← SessionService.createSession env user.id user.email user.username
      user.emailVerified user.enabled req.clientIp req.userAgent
    return .redirect (safeRedirect form.returnTo) (some session)

end LoginPage

end AuthServer
