import EzServer.Core.Machine
import EzServer.Core.Projection
import EzServer.Core.Framing
import EzServer.Core.OrderedMap
import EzServer.Core.FileTree
import EzServer.Core.FileMoves
import EzServer.Core.Regex
import EzServer.Services.ServicesManager
import EzServer.Services.Bindings
import EzServer.Services.History
import EzServer.Services.Filesystem
import EzServer.Services.Directories
import EzServer.Services.Resolution
import EzServer.Services.OpenFile
import EzServer.Services.FileOperations
import EzServer.Services.FileCalls
import EzServer.Introp.Plugin
import EzServer.Introp.PluginsLoader
import EzServer.Introp.Loading
import EzServer.Introp.BadFiles
import EzServer.Introp.Initialization
import EzServer.Introp.Turns
import EzServer.Introp.Unloading
import EzServer.Introp.Dependencies
import EzServer.Introp.Commands
import EzServer.Net.Protocol
import EzServer.Net.LengthField
import EzServer.Net.AsyncTcpClient
import EzServer.Net.ClientRules
import EzServer.Net.ReadChain
import EzServer.Net.ReadFraming
import EzServer.Net.Delivery
import EzServer.Net.Ownership
import EzServer.Net.StoppedClient
import EzServer.Net.ResponseStream
import EzServer.Net.ResponseFraming
import EzServer.Net.AsyncTcpListener
import EzServer.Net.Listening
import EzServer.Application.Session
import EzServer.Application.CloseEvent
import EzServer.Application.Server
import EzServer.Application.ServerRules
import EzServer.Application.AcceptLoop
import EzServer.Application.Arrivals
import EzServer.Application.Isolation
import EzServer.Application.ClientRegistry
import EzServer.Application.WorkerThreads
import EzServer.Application.Lifetime
import EzServer.Application.Startup
import EzServer.Application.ThreadPool
import EzServer.Application.Handlers
import EzServer.Application.Occupancy
import EzServer.Application.Strands
import EzServer.Application.Starvation
import EzServer.Application.Dispatcher
import EzServer.Application.RequestGrammar
import EzServer.Application.CommandNames
import EzServer.Application.Answers
import EzServer.Application.TrueLengths
import EzServer.Application.Conversation
import EzServer.Application.Answering
import EzServer.Application.CommandTable
import EzServer.Application.Bootstrapper
import EzServer.Application.DirectoryOrder
import EzServer.Application.RequiredServices
import EzServer.Application.ServiceBootstrap
import EzServer.Application.LoadedCommands
import EzServer.Application.Boot
import EzServer.Application.Shutdown
