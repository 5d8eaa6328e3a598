import AuthServer.Account.AdminEdits
import AuthServer.Account.Holders
import AuthServer.Account.Me
import AuthServer.Account.PasswordFailure
import AuthServer.Account.SignupAtomic
import AuthServer.Client.Coherence
import AuthServer.Client.SecretFormats
import AuthServer.Crypto.Retirement
import AuthServer.Crypto.RotateFailure
import AuthServer.Crypto.TokenLife
import AuthServer.EditRace
import AuthServer.Limit.Peer
import AuthServer.Oauth.ConsentUnion
import AuthServer.Oauth.DeviceBinding
import AuthServer.Oauth.DeviceStore
import AuthServer.Oauth.LogoutPage
import AuthServer.Oauth.ScopeGate
import AuthServer.Oauth.Silent
import AuthServer.Oauth.Token.CodeFlow
import AuthServer.Oauth.Token.GrantTypes
import AuthServer.Oauth.Token.Promises
import AuthServer.Oauth.Token.Revocation
import AuthServer.Oidc.Liveness
import AuthServer.Oidc.Released
import AuthServer.Role.Effective
import AuthServer.Role.SetParent
import AuthServer.Session.Deletion
import AuthServer.Site.SafeUris
