import Pindex.Library.Run
import Pindex.Library.DocStore
import Pindex.Library.Pattern
import Pindex.Library.Arrivals
import Pindex.Library.Repetition
import Pindex.Platform
import Pindex.BCryptSwift
import Pindex.CreateAccountView
import Pindex.LoginView
import Pindex.BulletinBoardView
import Pindex.MapView
import Pindex.Map
import Pindex.World
import Pindex.Replay
import Pindex.InputTheorems
import Pindex.PasswordTheorems
import Pindex.RegistrationTheorems
import Pindex.SessionTheorems
import Pindex.BoardTheorems
import Pindex.PostTheorems
import Pindex.StoreTheorems
import Pindex.WriteTheorems
import Pindex.PagingTheorems
import Pindex.NavigationTheorems
import Pindex.CenteringTheorems
import Pindex.Base64
import Pindex.Library.Feistel
import Pindex.Blowfish
import Pindex.HashPassword
import Pindex.CipherTheorems
import Pindex.HashTheorems
import Pindex.BCryptSwiftRandom
import Pindex.Library.Simulation
import Pindex.StoredPasswords
import Pindex.Device
import Pindex.DeviceTheorems
import Pindex.SystemTheorems
import Pindex.AccountTheorems
import Pindex.BoardIsolation
import Pindex.OwnPosts
import Pindex.Recovery
import Pindex.LocationTheorems
