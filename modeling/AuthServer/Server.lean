import AuthServer.Admin
import AuthServer.Oauth.Authorize
import AuthServer.Oauth.Token.Introspect
import AuthServer.Account.LoginResource
import AuthServer.Account.Signup

/-!
# The server

The requests whose programs are modelled, and the server that executes them.
-/

namespace AuthServer

open Concurrent

/-- A request, or a call of a component where statements are about the component itself. -/
inductive Call where
  | findByToken (token : String)
  | findActiveSession (token : String)
  | deleteSession (id : Uuid)
  | deleteAllByUserId (userId : Uuid)
  | deleteAllByUserIdExcept (userId keep : Uuid)
  | logoutSession (token : String)
  | token (req : TokenRequest)
  | revoke (token clientId : String) (clientSecret : Option String)
  | sweep
  | requestDeviceAuthorization (clientId : String) (scope : Option String)
  | verifyUserCode (userCode : String) (sessionToken : Option String) (approve : Bool)
  | authorize (req : AuthorizeRequest)
  | submitConsent (sessionToken requestId action : Option String)
  | logout (idTokenHint sessionToken postLogoutRedirectUri : Option String)
  | login (identifier password ipAddress userAgent : Option String)
  | requestReset (identifier : String)
  | consumeReset (tokenRaw newPassword : String)
  | changePassword (userId : Uuid) (currentSessionId : Option Uuid)
      (oldPassword newPassword : String)
  | updateUser (token : Option String) (path : String) (body : UserUpdateRequest)
  | deleteUser (token : Option String) (path : String)
  | revokeSession (token : Option String) (path : String)
  | createClient (client : ClientRow)
  | updateClient (client : ClientRow)
  | deleteClient (id : Uuid)
  | addRedirectUri (uri : RedirectUri)
  | removeRedirectUri (id : Uuid)
  | findByClientId (clientId : String)
  | adminUpdateClient (token : Option String) (path : String) (body : ClientRequest)
  | revokeConsent (token : Option String) (path : String)
  | checkRate (key : String) (limit windowSeconds : Nat)
  | loginJson (req : HttpRequest) (body : LoginRequest)
  | submitLogin (req : HttpRequest) (form : LoginForm)
  | signup (req : HttpRequest) (body : SignupRequest)
  | verifyEmail (req : HttpRequest) (token : Option String)
  | createUser (token : Option String) (body : UserCreateRequest)
  | grantConsent (userId clientId : Uuid) (scope : Option String)
  | userinfo (keys : String → Bool) (token : BearerToken)
  | introspect (keys : String → Bool) (token : BearerToken) (clientId : String)
      (clientSecret : Option String)

/-- What a request answers with when it does not end with a propagated error. -/
def Call.Answer : Call → Type
  | .findByToken _ | .findActiveSession _ => Option SessionWithUser
  | .deleteSession _ | .deleteAllByUserId _ | .deleteAllByUserIdExcept _ _ | .sweep
  | .removeRedirectUri _ => Nat
  | .logoutSession _ => Bool
  | .token _ => TokenResult
  | .revoke _ _ _ => RevokeResult
  | .requestDeviceAuthorization _ _ => DeviceAuthorizationResult
  | .verifyUserCode _ _ _ => DeviceVerifyResult
  | .authorize _ => AuthorizeResult
  | .submitConsent _ _ _ => ConsentResult
  | .logout _ _ _ => LogoutResult
  | .login _ _ _ _ | .loginJson _ _ => Option LoginResponse
  | .requestReset _ => Option String
  | .consumeReset _ _ => Except ResetError Unit
  | .changePassword _ _ _ _ => Except ChangeError Unit
  | .updateUser _ _ _ | .deleteUser _ _ | .revokeSession _ _ | .revokeConsent _ _
  | .createUser _ _ => AdminResponse
  | .updateClient _ => Option ClientRow
  | .deleteClient _ => Option String
  | .createClient _ | .addRedirectUri _ | .grantConsent _ _ _ => Unit
  | .findByClientId _ => Option Client
  | .adminUpdateClient _ _ _ => Except AdminResponse ClientSummary
  | .checkRate _ _ _ => RateLimitDecision
  | .submitLogin _ _ => LoginPageResponse
  | .signup _ _ => Except SignupError SignupSuccess
  | .verifyEmail _ _ => Except VerifyEmailError Uuid
  | .userinfo _ _ => UserinfoResponse
  | .introspect _ _ _ _ => IntrospectResult

/-- What a request ends with. -/
abbrev Ret (c : Call) : Type := Except Failure c.Answer

/-- The handler of a request. -/
def handler (env : Env) : (c : Call) → Handler c.Answer
  | .findByToken token => SessionRepository.findByToken env token
  | .findActiveSession token => SessionService.findActiveSession env token
  | .deleteSession id => SessionRepository.delete env id
  | .deleteAllByUserId uid => SessionRepository.deleteAllByUserId env uid
  | .deleteAllByUserIdExcept uid keep => SessionRepository.deleteAllByUserIdExcept env uid keep
  | .logoutSession token => SessionService.logout env token
  | .token req => TokenFlow.token env req
  | .revoke token clientId secret => RevokeFlow.revoke env token clientId secret
  | .sweep => sweepOnce
  | .requestDeviceAuthorization clientId scope =>
    DeviceFlow.requestDeviceAuthorization env clientId scope
  | .verifyUserCode userCode token approve => DeviceFlow.verifyUserCode env userCode token approve
  | .authorize req => AuthorizeFlow.authorize env req
  | .submitConsent token requestId action => ConsentResource.submit env token requestId action
  | .logout hint token uri => LogoutFlow.logout env hint token uri
  | .login identifier password ip agent => AuthServer.login env identifier password ip agent
  | .requestReset identifier => PasswordFlow.requestReset env identifier
  | .consumeReset token password => PasswordFlow.consumeReset env token password
  | .changePassword uid sid old new => PasswordFlow.changePassword env uid sid old new
  | .updateUser token path body => AdminResource.updateUser env token path body
  | .deleteUser token path => AdminResource.deleteUser env token path
  | .revokeSession token path => AdminResource.revokeSession env token path
  | .createClient client => ClientRepository.persist client
  | .updateClient client => ClientRepository.update client
  | .deleteClient id => ClientRepository.delete id
  | .addRedirectUri uri => ClientRepository.addRedirectUri uri
  | .removeRedirectUri id => ClientRepository.removeRedirectUri id
  | .findByClientId clientId => ClientRepository.findByClientId env clientId
  | .adminUpdateClient token path body => AdminResource.updateClient env token path body
  | .revokeConsent token path => AdminResource.revokeConsent env token path
  | .checkRate key limit window => RateLimiter.check key limit window
  | .loginJson req body => LoginResource.login env req body
  | .submitLogin req form => LoginPage.submitLogin env req form
  | .signup req body => SignupResource.signup env req body
  | .verifyEmail req token => SignupResource.verifyEmail env req token
  | .createUser token body => AdminResource.createUser env token body
  | .grantConsent userId clientId scope => ConsentService.grant userId clientId scope
  | .userinfo keys token => OidcResource.userinfo env keys token
  | .introspect keys token clientId secret =>
    IntrospectFlow.introspect env keys token clientId secret

/-- The server: its commands act on the world, its requests run their handlers. -/
def server (env : Env) : Server Res World Choice Ret where
  exec := World.exec env
  program c := (handler env c).run

theorem server_program (env : Env) (c : Call) :
    (server env).program c = (handler env c).run := rfl

/-- Shorthands for the configurations and moments of the server. -/
abbrev State := Config Res World Ret

abbrev Instant := Moment Res World

abbrev Rules := Regime Res World Choice Call

end AuthServer
