import MoaCrypto.Lib.Blocks
import MoaCrypto.Lib.Der
import MoaCrypto.Lib.Flight
import MoaCrypto.Lib.Act
import MoaCrypto.Lib.Prog
import MoaCrypto.Lib.Run
import MoaCrypto.Lib.Interleave
import MoaCrypto.Lib.Weigh
import MoaCrypto.Lib.Radix
import MoaCrypto.Lib.Seal
import MoaCrypto.Lib.Session
import MoaCrypto.Java.Tokenizer
import MoaCrypto.Java.Lines
import MoaCrypto.Java.Decimal
import MoaCrypto.Java.Text
import MoaCrypto.Java.Base64
import MoaCrypto.Java.Sha256
import MoaCrypto.Java.Properties
import MoaCrypto.Java.PropertyText
import MoaCrypto.Java.PropertyFields
import MoaCrypto.Web.Url
import MoaCrypto.Web.Call
import MoaCrypto.Transaction.Server
import MoaCrypto.Transaction.Call
import MoaCrypto.Transaction.Worth
import MoaCrypto.Transaction.Conservation
import MoaCrypto.Transaction.Atomicity
import MoaCrypto.Transaction.Runs
import MoaCrypto.Transaction.Concurrent
import MoaCrypto.Transaction.Names
import MoaCrypto.Transaction.Checks
import MoaCrypto.Transaction.Watch
import MoaCrypto.SimplePay.Handler
import MoaCrypto.SimplePay.Outcome
import MoaCrypto.SimplePay.Payments
import MoaCrypto.SimplePay.OwnCard
import MoaCrypto.SimplePay.SingleUse
import MoaCrypto.SimplePay.CardUpdates
import MoaCrypto.SimplePay.Settlement
import MoaCrypto.SimplePay.SecureKey
import MoaCrypto.SimplePay.CardColumns
import MoaCrypto.SimplePay.PasswordChange
import MoaCrypto.SimplePay.Store
import MoaCrypto.SimplePay.Server
import MoaCrypto.SimplePay.Controller
import MoaCrypto.SimplePay.CardBook
import MoaCrypto.SimplePay.CardLife
import MoaCrypto.AuthDb.Dao
import MoaCrypto.CoreAPI.Symmetric
import MoaCrypto.CoreAPI.PublicKey
import MoaCrypto.CoreAPI.Signature
import MoaCrypto.CoreAuth.Client
import MoaCrypto.CoreAuth.Server
import MoaCrypto.CoreAuth.Login
import MoaCrypto.CoreAuth.Network
import MoaCrypto.CoreAuth.AuthFile
import MoaCrypto.CoreAuth.AuthMap
import MoaCrypto.CoreAuth.Messages
import MoaCrypto.CoreAuth.WalletStore
import MoaCrypto.CoreAuth.RemoveFile
import MoaCrypto.CoreAuth.IdInjection
import MoaCrypto.Wallet.Base58
import MoaCrypto.Wallet.Provider
import MoaCrypto.Wallet.File
import MoaCrypto.Wallet.Issue
import MoaCrypto.Wallet.Reset
import MoaCrypto.Wallet.Update
import MoaCrypto.Wallet.ResetData
import MoaCrypto.Wallet.RestoreInfo
import MoaCrypto.Wallet.CrashSafe
import MoaCrypto.Wallet.HmacPsw
import MoaCrypto.Android.Device
import MoaCrypto.Android.Wallet
import MoaCrypto.Android.Saved
import MoaCrypto.Android.Reset
import MoaCrypto.Android.Restore
import MoaCrypto.Android.Frame
import MoaCrypto.Android.NoLoss
import MoaCrypto.Android.Callbacks
import MoaCrypto.Android.FailedCalls
import MoaCrypto.Android.ScriptUrl
import MoaCrypto.Browser.Wallet
import MoaCrypto.Browser.Keys
import MoaCrypto.Browser.Auth
import MoaCrypto.Browser.Restore
import MoaCrypto.Browser.HmacPsw
import MoaCrypto.Blockchain.Ripemd160
import MoaCrypto.Blockchain.Padding
import MoaCrypto.Blockchain.Node
import MoaCrypto.Blockchain.Registration
import MoaCrypto.Blockchain.Broadcast
import MoaCrypto.Blockchain.Traffic
import MoaCrypto.Address
import MoaCrypto.Portable
import MoaCrypto.EncryptedPsw
import MoaCrypto.Integrity
import MoaCrypto.Lib.Serial
import MoaCrypto.Transaction.Serial
import MoaCrypto.Transaction.Ownership
import MoaCrypto.CoreAuth.Accounts
import MoaCrypto.CoreAuth.AccountRuns
import MoaCrypto.Transaction.Ledger
import MoaCrypto.Transaction.Client
